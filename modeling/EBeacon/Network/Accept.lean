import EBeacon.Library.Text

namespace EBeacon.Network

open Text

/-- What `acceptPrefersSSZ` needs of `float64`, with `strconv.ParseFloat` for `parse`. -/
structure QValues (F : Type) where
  zero : F
  one : F
  lt : F → F → Bool
  parse : String → Option F
  zero_lt_one : lt zero one = true

inductive Specificity
  | none
  | wildcard
  | subWildcard
  | exact
  deriving DecidableEq, Repr

def Specificity.rank : Specificity → ℕ
  | .none => 0
  | .wildcard => 1
  | .subWildcard => 2
  | .exact => 3

structure Weight (F : Type) where
  q : F
  spec : Specificity

namespace QValues

variable {F : Type} (qv : QValues F)

def apply (w : Weight F) (q : F) (spec : Specificity) : Weight F :=
  if w.spec.rank < spec.rank then ⟨q, spec⟩ else w

def quality (params : List String) : F :=
  params.foldl (fun q p =>
    let p := trimSpace p
    if hasPrefix p "q=" then (qv.parse (trimPrefix p "q=")).getD q else q) qv.one

def applyRange (w : Weight F × Weight F) (part : String) : Weight F × Weight F :=
  match split ';' part with
  | [] => w
  | mediaType :: params =>
    let q := qv.quality params
    match toLower (trimSpace mediaType) with
    | "application/octet-stream" => (apply w.1 q .exact, w.2)
    | "application/json" => (w.1, apply w.2 q .exact)
    | "application/*" => (apply w.1 q .subWildcard, apply w.2 q .subWildcard)
    | "*/*" => (apply w.1 q .wildcard, apply w.2 q .wildcard)
    | _ => w

def acceptPrefersSSZ (accept : String) : Bool :=
  if accept = "" then false
  else
    let start : Weight F := ⟨qv.zero, .none⟩
    let (octet, json) := (split ',' accept).foldl qv.applyRange (start, start)
    qv.lt qv.zero octet.q && qv.lt json.q octet.q

theorem acceptPrefersSSZ_octetStream : qv.acceptPrefersSSZ "application/octet-stream" = true := by
  have hsplit : split ',' "application/octet-stream" = ["application/octet-stream"] := by decide
  have hrange : qv.applyRange (⟨qv.zero, .none⟩, ⟨qv.zero, .none⟩) "application/octet-stream" =
      (⟨qv.one, .exact⟩, ⟨qv.zero, .none⟩) := rfl
  unfold acceptPrefersSSZ
  rw [if_neg (by decide), hsplit]
  simp only [List.foldl_cons, List.foldl_nil, hrange, qv.zero_lt_one, Bool.and_self]

theorem acceptPrefersSSZ_empty : qv.acceptPrefersSSZ "" = false := rfl

end QValues

end EBeacon.Network
