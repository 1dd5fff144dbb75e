import EBeacon.Library.Text
import EBeacon.Upstream.PoolHeads

set_option linter.dupNamespace false

namespace EBeacon.Upstream

open Text

structure Upstream where
  id : String
  archive : Bool
  deriving DecidableEq, Repr

structure Selector where
  id : String
  clientType : String
  glob : String
  deriving DecidableEq, Repr

namespace Selector

def zero : Selector := ⟨"", "", ""⟩

def parseSelector (s : String) : Selector :=
  if hasPrefix s "client:" then { zero with clientType := trimPrefix s "client:" }
  else if hasPrefix s "glob:" then { zero with glob := trimPrefix s "glob:" }
  else if containsAny s "*?[" then { zero with glob := s }
  else { zero with id := s }

def enabled (s : Selector) : Bool := s.id ≠ "" || s.clientType ≠ "" || s.glob ≠ ""

def string (s : Selector) : String :=
  if s.clientType ≠ "" then "client:" ++ s.clientType
  else if s.glob ≠ "" then "glob:" ++ s.glob
  else s.id

def isMatch (s : Selector) (pathMatch : String → String → Bool) (id clientType : String) : Bool :=
  if s.clientType ≠ "" then clientType = s.clientType
  else if s.glob ≠ "" then pathMatch s.glob id
  else if s.id ≠ "" then id = s.id
  else true

theorem parseSelector_client (t : String) : parseSelector (string ⟨"", t, ""⟩) = ⟨"", t, ""⟩ := by
  by_cases ht : t = ""
  · subst ht
    decide
  · have hstring : string ⟨"", t, ""⟩ = "client:" ++ t := if_pos ht
    rw [hstring]
    unfold parseSelector
    rw [if_pos (hasPrefix_append _ _), trimPrefix_append]
    rfl

theorem parseSelector_glob (g : String) : parseSelector (string ⟨"", "", g⟩) = ⟨"", "", g⟩ := by
  by_cases hg : g = ""
  · subst hg
    decide
  · have hstring : string ⟨"", "", g⟩ = "glob:" ++ g := by simp [string, hg]
    have hclient : hasPrefix ("glob:" ++ g) "client:" = false := by
      unfold hasPrefix
      rw [String.toList_append]
      rfl
    rw [hstring]
    unfold parseSelector
    rw [hclient, if_neg Bool.false_ne_true, if_pos (hasPrefix_append _ _), trimPrefix_append]
    rfl

theorem parseSelector_cases (s : String) :
    (∃ t, parseSelector s = ⟨"", t, ""⟩) ∨ (∃ g, parseSelector s = ⟨"", "", g⟩) ∨
      parseSelector s = ⟨s, "", ""⟩ := by
  unfold parseSelector
  split_ifs
  · exact Or.inl ⟨_, rfl⟩
  · exact Or.inr (Or.inl ⟨_, rfl⟩)
  · exact Or.inr (Or.inl ⟨_, rfl⟩)
  · exact Or.inr (Or.inr rfl)

theorem parseSelector_string (s : String) : parseSelector (parseSelector s).string = parseSelector s := by
  obtain ⟨t, h⟩ | ⟨g, h⟩ | h := parseSelector_cases s
  · rw [h]
    exact parseSelector_client t
  · rw [h]
    exact parseSelector_glob g
  · have hstring : (parseSelector s).string = s := by
      rw [h]
      rfl
    rw [hstring]

theorem string_ne_empty {s : Selector} (h : s.enabled = true) : s.string ≠ "" := by
  unfold string
  split_ifs with ht hg
  · simp
  · simp
  · simpa [enabled, not_not.mp ht, not_not.mp hg] using h

end Selector

/-- What routing can read of a pool at one moment. The upstreams never change; health, rate
limits, client types, the tracked heads and the order of the load balancer do. -/
structure Pool where
  upstreams : List Upstream
  isReady : String → Bool
  isHealthy : String → Bool
  allowRequest : String → Bool
  clientType : String → String
  heads : PoolHeads
  pathMatch : String → String → Bool
  orderForPath : List Upstream → String → List Upstream
  order_perm : ∀ ups apiPath, (orderForPath ups apiPath).Perm ups

namespace Pool

def allReady (upstreams : List Upstream) : Pool where
  upstreams := upstreams
  isReady := fun _ => true
  isHealthy := fun _ => true
  allowRequest := fun _ => true
  clientType := fun _ => "lighthouse"
  heads := .new ⟨"mainnet", 64, 8, 0, 12, 32⟩ false
  pathMatch := fun pattern name => pattern = name
  orderForPath := fun ups _ => ups
  order_perm := fun ups _ => .refl ups

variable (p : Pool)

def byID (id : String) : Option Upstream := p.upstreams.find? (fun u => u.id = id)

def hasArchive : Bool := p.upstreams.any (·.archive)

def isForked (id : String) : Bool := p.heads.blockCache.isForked id

def isMatch (sel : Selector) (u : Upstream) : Bool :=
  sel.isMatch p.pathMatch u.id (p.clientType u.id)

def hasMatching (sel : Selector) : Bool := p.upstreams.any (p.isMatch sel)

def candidateTier (all : List Upstream) : List Upstream :=
  let canonical := all.filter (fun u => p.isReady u.id && p.heads.blockCache.isOnCanonicalFork u.id)
  let ready := all.filter (fun u => p.isReady u.id)
  let healthy := all.filter (fun u => p.isHealthy u.id)
  if canonical ≠ [] then canonical
  else if ready ≠ [] then ready
  else if healthy ≠ [] then healthy
  else all

def preferHead (candidates : List Upstream) : List Upstream :=
  match p.heads.blockCache.canonicalHeadSeenBy with
  | none => candidates
  | some seen =>
    let preferred := candidates.filter (fun u => u.id ∈ seen)
    if preferred ≠ [] then preferred else candidates

def selectFromCandidatesForPath (all : List Upstream) (n : ℕ) (apiPath : String)
    (preferCanonicalHead : Bool) : List Upstream :=
  let candidates := p.candidateTier all
  let candidates := if preferCanonicalHead then p.preferHead candidates else candidates
  let allowed := candidates.filter (fun u => p.allowRequest u.id)
  let candidates := if allowed ≠ [] then allowed else candidates
  (p.orderForPath candidates apiPath).take n

def selectForPath (apiPath : String) (n : ℕ) : List Upstream :=
  p.selectFromCandidatesForPath p.upstreams n apiPath false

def selectForPathPreferCanonicalHead (apiPath : String) (n : ℕ) : List Upstream :=
  p.selectFromCandidatesForPath p.upstreams n apiPath true

def selectForPathArchive (apiPath : String) (n : ℕ) : List Upstream :=
  p.selectFromCandidatesForPath (p.upstreams.filter (·.archive)) n apiPath false

def selectMatching (sel : Selector) (apiPath : String) (n : ℕ) : List Upstream :=
  p.selectFromCandidatesForPath (p.upstreams.filter (p.isMatch sel)) n apiPath false

def byGlob (pattern : String) : Option Upstream :=
  p.upstreams.find? (fun u => p.pathMatch pattern u.id && p.isReady u.id && !p.isForked u.id)

def getForPath (preferID apiPath : String) : Option Upstream :=
  let preferred := if Text.containsAny preferID "*?[" then p.byGlob preferID else p.byID preferID
  match if preferID = "" then none else preferred.filter (fun u => p.isReady u.id && !p.isForked u.id) with
  | some u => some u
  | none => (p.selectForPath apiPath 1).head?

def get (preferID : String) : Option Upstream := p.getForPath preferID ""

theorem candidateTier_subset (all : List Upstream) : p.candidateTier all ⊆ all := by
  unfold candidateTier
  dsimp only
  split_ifs
  · exact List.filter_subset_self _
  · exact List.filter_subset_self _
  · exact List.filter_subset_self _
  · exact List.Subset.refl _

theorem preferHead_subset (candidates : List Upstream) : p.preferHead candidates ⊆ candidates := by
  unfold preferHead
  split
  · exact List.Subset.refl _
  · dsimp only
    split_ifs
    · exact List.filter_subset_self _
    · exact List.Subset.refl _

theorem selectFromCandidatesForPath_subset (all : List Upstream) (n : ℕ) (apiPath : String)
    (preferCanonicalHead : Bool) :
    p.selectFromCandidatesForPath all n apiPath preferCanonicalHead ⊆ all := by
  intro u hu
  have hu := (p.order_perm _ _).subset (List.mem_of_mem_take hu)
  have hu : u ∈ if preferCanonicalHead then p.preferHead (p.candidateTier all)
      else p.candidateTier all := by
    split_ifs at hu ⊢ <;> first | exact hu | exact List.mem_of_mem_filter hu
  apply p.candidateTier_subset all
  split_ifs at hu
  · exact p.preferHead_subset _ hu
  · exact hu

theorem hasArchive_of_selectForPathArchive (apiPath : String) (n : ℕ)
    (h : p.selectForPathArchive apiPath n ≠ []) : p.hasArchive = true := by
  obtain ⟨u, hu⟩ := List.exists_mem_of_ne_nil _ h
  obtain ⟨hmem, harchive⟩ := List.mem_filter.mp (p.selectFromCandidatesForPath_subset _ _ _ _ hu)
  exact List.any_eq_true.mpr ⟨u, hmem, harchive⟩

theorem selectMatching_isMatch (sel : Selector) (apiPath : String) (n : ℕ) (u : Upstream)
    (hu : u ∈ p.selectMatching sel apiPath n) : p.isMatch sel u = true :=
  (List.mem_filter.mp (p.selectFromCandidatesForPath_subset _ _ _ _ hu)).2

end Pool

end EBeacon.Upstream
