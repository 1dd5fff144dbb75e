import Mathlib.Data.List.Sort

/-!
The part of Go's `net/url` that keys and routes are made of. A Go string is a `String` with one
character for each byte, so characters from 256 on do not occur and are never escaped.
-/

namespace EBeacon

namespace Percent

def hexDigits : List Char := "0123456789ABCDEF".toList

def hexDigit (n : ℕ) : Char := hexDigits.getD n '0'

def hexValue (c : Char) : Option ℕ :=
  if '0' ≤ c ∧ c ≤ '9' then some (c.toNat - 48)
  else if 'a' ≤ c ∧ c ≤ 'f' then some (c.toNat - 87)
  else if 'A' ≤ c ∧ c ≤ 'F' then some (c.toNat - 55)
  else none

def encodeByte (c : Char) : List Char := ['%', hexDigit (c.toNat / 16), hexDigit (c.toNat % 16)]

def escape (keep : Char → Bool) (l : List Char) : List Char :=
  l.flatMap (fun c => if keep c || 256 ≤ c.toNat then [c] else encodeByte c)

@[simp] def unescape : List Char → Option (List Char)
  | [] => some []
  | '%' :: hi :: lo :: rest =>
    match hexValue hi, hexValue lo with
    | some h, some l => (unescape rest).map (Char.ofNat (16 * h + l) :: ·)
    | _, _ => none
  | '%' :: _ => none
  | c :: rest => (unescape rest).map (c :: ·)

theorem hexDigit_mem (n : ℕ) : hexDigit n ∈ hexDigits := by
  unfold hexDigit
  rw [List.getD_eq_getElem?_getD]
  cases h : hexDigits[n]? with
  | none => decide
  | some c => exact List.mem_of_getElem? h

theorem hexValue_hexDigit : ∀ n < 16, hexValue (hexDigit n) = some n := by decide

theorem escape_append (keep : Char → Bool) (a b : List Char) :
    escape keep (a ++ b) = escape keep a ++ escape keep b :=
  List.flatMap_append

theorem escape_cons_of_keep {keep : Char → Bool} {c : Char} (hc : keep c = true) (l : List Char) :
    escape keep (c :: l) = c :: escape keep l := by
  have hcons : escape keep (c :: l) = (if keep c || 256 ≤ c.toNat then [c] else encodeByte c) ++ escape keep l :=
    List.flatMap_cons
  rw [hcons, hc]
  rfl

theorem escape_of_keep {keep : Char → Bool} {l : List Char} (h : ∀ c ∈ l, keep c = true) : escape keep l = l := by
  induction l with
  | nil => rfl
  | cons c l ih =>
    rw [List.forall_mem_cons] at h
    rw [escape_cons_of_keep h.1, ih h.2]

theorem mem_escape_cases {keep : Char → Bool} {l : List Char} {x : Char} (h : x ∈ escape keep l) :
    x ∈ l ∧ (keep x = true ∨ 256 ≤ x.toNat) ∨ x = '%' ∨ x ∈ hexDigits := by
  obtain ⟨c, hc, hx⟩ := List.mem_flatMap.mp h
  split_ifs at hx with hkeep
  · rw [List.mem_singleton] at hx
    subst hx
    simp only [Bool.or_eq_true, decide_eq_true_eq] at hkeep
    exact Or.inl ⟨hc, hkeep⟩
  · simp only [encodeByte, List.mem_cons, List.not_mem_nil, or_false] at hx
    rcases hx with hx | hx | hx
    · exact Or.inr (Or.inl hx)
    · exact Or.inr (Or.inr (hx ▸ hexDigit_mem _))
    · exact Or.inr (Or.inr (hx ▸ hexDigit_mem _))

theorem mem_escape {keep : Char → Bool} {l : List Char} {x : Char} (h : x ∈ escape keep l) :
    keep x = true ∨ 256 ≤ x.toNat ∨ x = '%' ∨ x ∈ hexDigits := by
  rcases mem_escape_cases h with ⟨-, hkeep | hbig⟩ | hhex
  · exact Or.inl hkeep
  · exact Or.inr (Or.inl hbig)
  · exact Or.inr (Or.inr hhex)

theorem mem_escape_of_bytes {keep : Char → Bool} {l : List Char} {x : Char} (hl : ∀ c ∈ l, c.toNat < 256)
    (h : x ∈ escape keep l) : keep x = true ∨ x = '%' ∨ x ∈ hexDigits := by
  rcases mem_escape_cases h with ⟨hx, hkeep | hbig⟩ | hhex
  · exact Or.inl hkeep
  · exact absurd (hl x hx) (Nat.not_lt.mpr hbig)
  · exact Or.inr hhex

theorem unescape_cons_of_ne {c : Char} (h : c ≠ '%') (rest : List Char) :
    unescape (c :: rest) = (unescape rest).map (c :: ·) := by
  rw [unescape]
  · exact fun hi lo rest' hc _ => h hc
  · exact h

theorem unescape_encodeByte {c : Char} (h : c.toNat < 256) (rest : List Char) :
    unescape (encodeByte c ++ rest) = (unescape rest).map (c :: ·) := by
  have hhi := hexValue_hexDigit (c.toNat / 16) (by omega)
  have hlo := hexValue_hexDigit (c.toNat % 16) (Nat.mod_lt _ (by decide))
  have hbyte : 16 * (c.toNat / 16) + c.toNat % 16 = c.toNat := Nat.div_add_mod _ _
  simp only [encodeByte, List.cons_append, List.nil_append, unescape, hhi, hlo, hbyte,
    Char.ofNat_toNat]

theorem unescape_escape_append {keep : Char → Bool} (hkeep : keep '%' = false) (l rest : List Char) :
    unescape (escape keep l ++ rest) = (unescape rest).map (l ++ ·) := by
  induction l with
  | nil => simp [escape]
  | cons c l ih =>
    have hcons : escape keep (c :: l) =
        (if keep c || 256 ≤ c.toNat then [c] else encodeByte c) ++ escape keep l :=
      List.flatMap_cons
    rw [hcons, List.append_assoc]
    split_ifs with hc
    · have hne : c ≠ '%' := by
        rintro rfl
        simp [hkeep] at hc
      rw [List.singleton_append, unescape_cons_of_ne hne, ih, Option.map_map]
      rfl
    · simp only [Bool.or_eq_true, decide_eq_true_eq, not_or, not_le] at hc
      rw [unescape_encodeByte hc.2, ih, Option.map_map]
      rfl

theorem unescape_escape {keep : Char → Bool} (hkeep : keep '%' = false) (l : List Char) :
    unescape (escape keep l) = some l := by
  have h := unescape_escape_append hkeep l []
  simpa using h

theorem unescape_literal {l : List Char} (hl : '%' ∉ l) (rest : List Char) :
    unescape (l ++ rest) = (unescape rest).map (l ++ ·) := by
  induction l with
  | nil => simp
  | cons c l ih =>
    rw [List.mem_cons, not_or] at hl
    rw [List.cons_append, unescape_cons_of_ne (Ne.symm hl.1), ih hl.2, Option.map_map]
    rfl

theorem unescape_ne_nil {l : List Char} (hl : l ≠ []) : unescape l ≠ some [] := by
  fun_cases unescape l with
  | case1 => exact absurd rfl hl
  | case2 => simp
  | case3 => simp
  | case4 => simp
  | case5 => simp

theorem length_unescape {l x : List Char} (h : unescape l = some x) : x.length ≤ l.length := by
  fun_induction unescape l generalizing x with
  | case1 =>
    cases h
    rfl
  | case2 hi lo rest hv lv hl hh ih =>
    obtain ⟨y, hy, rfl⟩ := Option.map_eq_some_iff.mp h
    have hle := ih hy
    simp only [List.length_cons]
    omega
  | case3 => cases h
  | case4 => cases h
  | case5 d rest _ hne ih =>
    obtain ⟨y, hy, rfl⟩ := Option.map_eq_some_iff.mp h
    exact Nat.succ_le_succ (ih hy)

theorem count_le_unescape {c : Char} (hc : hexValue c = none) (hpercent : c ≠ '%') {l x : List Char}
    (h : unescape l = some x) : l.count c ≤ x.count c := by
  fun_induction unescape l generalizing x with
  | case1 => exact Nat.zero_le _
  | case2 hi lo rest hv lv hl hh ih =>
    obtain ⟨y, hy, rfl⟩ := Option.map_eq_some_iff.mp h
    have hhi : hi ≠ c := by
      rintro rfl
      rw [hc] at hh
      cases hh
    have hlo : lo ≠ c := by
      rintro rfl
      rw [hc] at hl
      cases hl
    rw [List.count_cons_of_ne hpercent.symm, List.count_cons_of_ne hhi, List.count_cons_of_ne hlo]
    exact (ih hy).trans List.count_le_count_cons
  | case3 => cases h
  | case4 => cases h
  | case5 d rest _ hne ih =>
    obtain ⟨y, hy, rfl⟩ := Option.map_eq_some_iff.mp h
    have hle := ih hy
    rw [List.count_cons, List.count_cons]
    omega

theorem unescape_append {c : Char} (hc : hexValue c = none) (a b : List Char) :
    unescape (a ++ c :: b) = (unescape a).bind (fun x => (unescape (c :: b)).map (x ++ ·)) := by
  fun_induction unescape a with
  | case1 => simp
  | case2 hi lo rest h l hl hh ih =>
    simp only [List.cons_append, unescape, hl, hh, ih, Option.map_bind, Option.bind_map]
    simp [Function.comp_def]
  | case3 hi lo rest hnone => simp only [List.cons_append, unescape, Option.bind_none]
  | case4 rest hshort =>
    match rest, hshort with
    | [], _ => cases b <;> simp [hc]
    | [x], _ =>
      simp only [List.cons_append, List.nil_append, unescape, hc, Option.bind_none]
      cases hexValue x <;> rfl
    | x :: y :: rest, h => exact absurd rfl (h x y rest)
  | case5 d rest _ hne ih =>
    rw [List.cons_append, unescape_cons_of_ne hne, ih, Option.map_bind, Option.bind_map]
    simp [Function.comp_def]

end Percent

structure URL where
  path : String
  rawPath : String
  query : List (String × String)
  deriving DecidableEq, Repr

namespace URL

def isAlnum (c : Char) : Bool :=
  ('a' ≤ c && c ≤ 'z') || ('A' ≤ c && c ≤ 'Z') || ('0' ≤ c && c ≤ '9')

def unreserved (c : Char) : Bool := isAlnum c || "-_.~".toList.contains c

def pathByte (c : Char) : Bool := unreserved c || "$&+,/:;=@".toList.contains c

def validEncoded (l : List Char) : Bool :=
  l.all (fun c => pathByte c || "!'()*[]%".toList.contains c)

def escapedPath (u : URL) : String :=
  if u.rawPath ≠ "" ∧ validEncoded u.rawPath.toList ∧
      Percent.unescape u.rawPath.toList = some u.path.toList then u.rawPath
  else if u.path = "*" then "*"
  else String.ofList (Percent.escape pathByte u.path.toList)

def queryEscape (l : List Char) : List Char :=
  (Percent.escape (fun c => unreserved c || c = ' ') l).map (fun c => if c = ' ' then '+' else c)

def encode (query : List (String × String)) : String :=
  let sorted := query.insertionSort (fun a b => a.1 ≤ b.1)
  String.ofList ((sorted.flatMap (fun q =>
    '&' :: (queryEscape q.1.toList ++ '=' :: queryEscape q.2.toList))).drop 1)

def get (query : List (String × String)) (key : String) : String :=
  ((query.find? (fun q => q.1 = key)).map Prod.snd).getD ""

def del (query : List (String × String)) (key : String) : List (String × String) :=
  query.filter (fun q => q.1 ≠ key)

theorem unescape_escapedPath (u : URL) :
    Percent.unescape u.escapedPath.toList = some u.path.toList := by
  unfold escapedPath
  split_ifs with hraw hstar
  · exact hraw.2.2
  · rw [hstar]
    rfl
  · rw [String.toList_ofList]
    exact Percent.unescape_escape rfl _

theorem path_eq_of_escapedPath {u v : URL} (h : u.escapedPath = v.escapedPath) :
    u.path = v.path := by
  have hu := unescape_escapedPath u
  rw [h, unescape_escapedPath v, Option.some.injEq] at hu
  exact (String.toList_injective hu).symm

theorem question_notMem_escapedPath (u : URL) : '?' ∉ u.escapedPath.toList := by
  unfold escapedPath
  split_ifs with hraw hstar
  · intro h
    have hvalid := List.all_eq_true.mp hraw.2.1 '?' h
    revert hvalid
    decide
  · decide
  · rw [String.toList_ofList]
    intro h
    have hkept := Percent.mem_escape h
    revert hkept
    decide

theorem colon_notMem_queryEscape (l : List Char) : ':' ∉ queryEscape l := by
  intro h
  obtain ⟨c, hc, hcolon⟩ := List.mem_map.mp h
  split_ifs at hcolon with hspace
  · exact absurd hcolon (by decide)
  · have hkept := Percent.mem_escape hc
    rw [hcolon] at hkept
    revert hkept
    decide

theorem colon_notMem_encode (query : List (String × String)) : ':' ∉ (encode query).toList := by
  unfold encode
  rw [String.toList_ofList]
  intro h
  obtain ⟨q, -, hq⟩ := List.mem_flatMap.mp (List.mem_of_mem_drop h)
  simp only [List.mem_cons, List.mem_append] at hq
  rcases hq with hq | hq | hq | hq
  · exact absurd hq (by decide)
  · exact colon_notMem_queryEscape _ hq
  · exact absurd hq (by decide)
  · exact colon_notMem_queryEscape _ hq

end URL

end EBeacon
