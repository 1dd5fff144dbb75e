import Mathlib.Data.List.AList

namespace EBeacon.Maps

variable {κ ν ι : Type} [DecidableEq κ]

theorem lookup_insert_ite (m : AList (fun _ : κ => ν)) (k k' : κ) (v : ν) :
    (m.insert k v).lookup k' = if k' = k then some v else m.lookup k' := by
  split
  · rename_i h
    rw [h, AList.lookup_insert]
  · rename_i h
    rw [AList.lookup_insert_ne h]

theorem lookup_erase_ite (m : AList (fun _ : κ => ν)) (k k' : κ) :
    (m.erase k).lookup k' = if k' = k then none else m.lookup k' := by
  split
  · rename_i h
    rw [h, AList.lookup_erase]
  · rename_i h
    rw [AList.lookup_erase_ne h]

theorem lookup_foldl_erase (m : AList (fun _ : κ => ν)) (f : ι → κ) (l : List ι) (k : κ) :
    (l.foldl (fun m i => m.erase (f i)) m).lookup k =
      if k ∈ l.map f then none else m.lookup k := by
  induction l generalizing m with
  | nil => simp
  | cons i l ih =>
    rw [List.foldl_cons, ih]
    by_cases hl : k ∈ l.map f
    · rw [if_pos hl, if_pos (by rw [List.map_cons]; exact List.mem_cons_of_mem _ hl)]
    · rw [if_neg hl]
      by_cases hk : k = f i
      · rw [if_pos (by simp [hk]), hk, AList.lookup_erase]
      · rw [if_neg (by simpa [hk] using hl), AList.lookup_erase_ne hk]

theorem lookup_some_iff (m : AList (fun _ : κ => ν)) (k : κ) (v : ν) :
    m.lookup k = some v ↔ (⟨k, v⟩ : Σ _ : κ, ν) ∈ m.entries :=
  AList.mem_lookup_iff

end EBeacon.Maps
