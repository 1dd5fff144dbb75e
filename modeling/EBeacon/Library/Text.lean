import Mathlib.Algebra.Group.Nat.Defs
import Mathlib.Data.List.Basic

/-!
Functions of Go's `strings` and `strconv` packages. A Go string is a `String` with one character
for each byte.
-/

namespace EBeacon.Text

theorem forall_mem_of_all {α : Type*} {p : α → Prop} [DecidablePred p] {l : List α}
    (h : l.all (fun a => decide (p a)) = true) : ∀ a ∈ l, p a := by
  intro a ha
  exact of_decide_eq_true (List.all_eq_true.mp h a ha)

def split (sep : Char) (s : String) : List String := (s.toList.splitOn sep).map String.ofList

theorem split_append_cons (sep : Char) (s t : String) :
    split sep (s ++ String.singleton sep ++ t) = split sep s ++ split sep t := by
  unfold split
  rw [String.toList_append, String.toList_append, String.toList_singleton, List.append_assoc,
    List.singleton_append, List.splitOn_append_cons_self, List.map_append]

theorem split_ne_nil (sep : Char) (s : String) : split sep s ≠ [] := by
  unfold split
  simp [List.splitOn_ne_nil]

def trim (c : Char) (s : String) : String :=
  String.ofList ((s.toList.dropWhile (· = c)).reverse.dropWhile (· = c)).reverse

def trimRight (c : Char) (s : String) : String := String.ofList (s.toList.reverse.dropWhile (· = c)).reverse

def take (s : String) (n : ℕ) : String := String.ofList (s.toList.take n)

def drop (s : String) (n : ℕ) : String := String.ofList (s.toList.drop n)

theorem length_take (s : String) (n : ℕ) : (take s n).length = min n s.length := by
  rw [take, String.length_ofList, List.length_take, String.length_toList]

theorem take_of_length_le {s : String} {n : ℕ} (h : s.length ≤ n) : take s n = s := by
  rw [take, List.take_of_length_le (by rwa [String.length_toList]), String.ofList_toList]

theorem take_append (s t : String) : take (s ++ t) s.length = s := by
  rw [take, String.toList_append, ← String.length_toList, List.take_left, String.ofList_toList]

theorem drop_append (s t : String) : drop (s ++ t) s.length = t := by
  rw [drop, String.toList_append, ← String.length_toList, List.drop_left, String.ofList_toList]

def hasPrefix (s p : String) : Bool := p.toList.isPrefixOf s.toList

def hasSuffix (s p : String) : Bool := p.toList.isSuffixOf s.toList

def trimSuffix (s p : String) : String :=
  if hasSuffix s p then take s (s.length - p.length) else s

def trimPrefix (s p : String) : String :=
  if hasPrefix s p then String.ofList (s.toList.drop p.length) else s

theorem hasPrefix_append (p s : String) : hasPrefix (p ++ s) p = true := by
  unfold hasPrefix
  rw [String.toList_append, List.isPrefixOf_iff_prefix]
  exact List.prefix_append _ _

theorem trimPrefix_append (p s : String) : trimPrefix (p ++ s) p = s := by
  unfold trimPrefix
  rw [if_pos (hasPrefix_append p s), String.toList_append, ← String.length_toList,
    List.drop_left, String.ofList_toList]

def indexOf (sub : List Char) : List Char → Option ℕ
  | [] => if sub = [] then some 0 else none
  | c :: cs => if sub.isPrefixOf (c :: cs) then some 0 else (indexOf sub cs).map (· + 1)

def index (s sub : String) : Option ℕ := indexOf sub.toList s.toList

def contains (s sub : String) : Bool := (index s sub).isSome

def containsAny (s chars : String) : Bool := s.toList.any (fun c => chars.toList.contains c)

def spaces : List (List Char) :=
  [['\t'], ['\n'], ['\x0b'], ['\x0c'], ['\r'], [' '], ['\xc2', '\x85'], ['\xc2', '\xa0'],
    ['\xe1', '\x9a', '\x80'], ['\xe2', '\x80', '\x80'], ['\xe2', '\x80', '\x81'],
    ['\xe2', '\x80', '\x82'], ['\xe2', '\x80', '\x83'], ['\xe2', '\x80', '\x84'],
    ['\xe2', '\x80', '\x85'], ['\xe2', '\x80', '\x86'], ['\xe2', '\x80', '\x87'],
    ['\xe2', '\x80', '\x88'], ['\xe2', '\x80', '\x89'], ['\xe2', '\x80', '\x8a'],
    ['\xe2', '\x80', '\xa8'], ['\xe2', '\x80', '\xa9'], ['\xe2', '\x80', '\xaf'],
    ['\xe2', '\x81', '\x9f'], ['\xe3', '\x80', '\x80']]

def dropWords (words : List (List Char)) : ℕ → List Char → List Char
  | 0, l => l
  | fuel + 1, l => match words.find? (fun w => w.isPrefixOf l) with
    | some w => dropWords words fuel (l.drop w.length)
    | none => l

def trimSpace (s : String) : String :=
  let left := dropWords spaces s.length s.toList
  String.ofList (dropWords (spaces.map List.reverse) s.length left.reverse).reverse

-- of the letters beyond ASCII, only the Kelvin sign and the dotted capital I have an ASCII lower case
def lowerCase : List Char → List Char
  | [] => []
  | '\xe2' :: '\x84' :: '\xaa' :: rest => 'k' :: lowerCase rest
  | '\xc4' :: '\xb0' :: rest => 'i' :: lowerCase rest
  | c :: rest => c.toLower :: lowerCase rest

-- `strings.ToLower`, as far as comparisons with ASCII texts go, and `strings.ToUpper` of ASCII letters
def toLower (s : String) : String := String.ofList (lowerCase s.toList)

def toUpper (s : String) : String := String.ofList (s.toList.map Char.toUpper)

def isDigit (c : Char) : Bool := '0' ≤ c && c ≤ '9'

def parseUint64 (s : String) : Option UInt64 :=
  let digits := s.toList
  let n := digits.foldl (fun n c => 10 * n + (c.toNat - 48)) 0
  if digits ≠ [] ∧ digits.all isDigit ∧ n < 2 ^ 64 then some (UInt64.ofNat n) else none

def cleanSegments (rooted : Bool) : List String → List String → List String
  | acc, [] => acc.reverse
  | acc, seg :: rest =>
    if seg = "" ∨ seg = "." then cleanSegments rooted acc rest
    else if seg = ".." then
      match acc with
      | [] => cleanSegments rooted (if rooted then [] else [".."]) rest
      | top :: below => cleanSegments rooted (if top = ".." then ".." :: acc else below) rest
    else cleanSegments rooted (seg :: acc) rest

def clean (path : String) : String :=
  let rooted := hasPrefix path "/"
  let out := "/".intercalate (cleanSegments rooted [] (split '/' path))
  if rooted then "/" ++ out else if out = "" then "." else out

example : clean "/eth//v1/./node/../beacon/" = "/eth/v1/beacon" := by decide

theorem append_inj_of_notMem {c : Char} {a b x y : List Char} (ha : c ∉ a) (hb : c ∉ b)
    (hx : x = [] ∨ x.head? = some c) (hy : y = [] ∨ y.head? = some c) (h : a ++ x = b ++ y) :
    a = b ∧ x = y := by
  induction a generalizing b with
  | nil =>
    cases b with
    | nil => exact ⟨rfl, h⟩
    | cons d b =>
      rcases hx with hx | hx
      · simp [hx] at h
      · rw [List.nil_append] at h
        simp [h] at hx
        simp [hx] at hb
  | cons d a ih =>
    cases b with
    | nil =>
      rcases hy with hy | hy
      · simp [hy] at h
      · rw [List.nil_append] at h
        simp [← h] at hy
        simp [hy] at ha
    | cons e b =>
      rw [List.cons_append, List.cons_append, List.cons.injEq] at h
      obtain ⟨hab, hxy⟩ := ih (fun hc => ha (List.mem_cons_of_mem d hc))
        (fun hc => hb (List.mem_cons_of_mem e hc)) h.2
      exact ⟨by rw [h.1, hab], hxy⟩

example : (split '/' (trim '/' "/eth/v1/beacon/headers/42/")).getLast? = some "42" := by decide

example : parseUint64 "18446744073709551616" = none := by decide

end EBeacon.Text
