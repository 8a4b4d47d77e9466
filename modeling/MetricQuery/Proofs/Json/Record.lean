import MetricQuery.Json.Record
import MetricQuery.Proofs.Json.Reread

/-!
# Records that are read as they are written

* `fields?_record`: an object whose keys differ has the fields of its record.
* `toList?_map`: a list is read if each of its items is, and `toList?_map_eq_none` if one is not.
* `plain_record`, `plain_texts` and `nesting_texts`: what is made of texts is plain, and how deep
  it nests.
-/

namespace MetricQuery.Json

/-! ## Fields -/

theorem field?_eq_lookup {members : List (String × Json)} (h : (members.map Prod.fst).Nodup)
    (name : String) :
    field? (members.map fun member => (some member.1, member.2)) name =
      some (members.lookup name) := by
  have hfilter : (members.map fun member => (some member.1, member.2)).filter
      (fun member => member.1 = some name) =
        ((members.lookup name).map fun value => (some name, value)).toList := by
    induction members with
    | nil => rfl
    | cons member rest ih =>
      obtain ⟨key, value⟩ := member
      rw [List.map_cons, List.nodup_cons] at h
      obtain ⟨hkey, hrest⟩ := h
      rw [List.map_cons, List.lookup_cons]
      by_cases hname : name = key
      · have hnone : rest.lookup name = none := by
          rw [List.lookup_eq_none_iff]
          intro other hother
          exact bne_iff_ne.2 fun hsame =>
            hkey (List.mem_map.2 ⟨other, hother, hsame.symm.trans hname⟩)
        rw [List.filter_cons_of_pos (by simp [hname]), ih hrest, hnone, beq_iff_eq.2 hname, hname]
        rfl
      · rw [List.filter_cons_of_neg (by simp [Ne.symm hname]), ih hrest, beq_false_of_ne hname]
  rw [field?, hfilter]
  cases members.lookup name <;> rfl

/-- The fields of an object whose keys differ. -/
theorem fields?_record (members : List (String × Json)) (h : (members.map Prod.fst).Nodup)
    (names : List String) :
    fields? names (record members) = some (names.map fun name => members.lookup name) := by
  have hkeys : (members.map fun member => (some member.1, member.2)).all
      (fun member => member.1.isSome) = true := by simp
  simp only [fields?, record, hkeys, if_true]
  rw [funext (field?_eq_lookup h)]
  exact List.mapM_pure

/-! ## Lists -/

section Lists

variable {α : Type} {read : Json → Option α} {write : α → Json} {values : List α}

theorem toList?_map (h : ∀ a ∈ values, read (write a) = some a) :
    toList? read (.array (values.map write)) = some values := by
  induction values with
  | nil => rfl
  | cons a rest ih =>
    obtain ⟨ha, hrest⟩ := List.forall_mem_cons.1 h
    have hmap : (rest.map write).mapM read = some rest := ih hrest
    simp [toList?, ha, hmap]

theorem toList?_map_eq_none {a : α} (ha : a ∈ values) (h : read (write a) = none) :
    toList? read (.array (values.map write)) = none := by
  induction values with
  | nil => simp at ha
  | cons b rest ih =>
    rcases List.mem_cons.1 ha with rfl | ha
    · simp [toList?, h]
    · have hmap : (rest.map write).mapM read = none := ih ha
      cases hb : read (write b) <;> simp [toList?, hb, hmap]

end Lists

theorem toList?_texts (ss : List String) : toList? toText? (texts ss) = some ss :=
  toList?_map fun _ _ => rfl

theorem toOptional?_optional (s : Option String) : (optional s).toOptional? = some s := by
  cases s <;> rfl

/-! ## What is made of texts -/

theorem allPlain_iff {items : List Json} : AllPlain items ↔ ∀ j ∈ items, j.Plain := by
  induction items with
  | nil => simp [AllPlain]
  | cons item rest ih => simp [AllPlain, ih]

theorem plain_record {members : List (String × Json)} :
    (record members).Plain ↔ ∀ member ∈ members, member.2.Plain := by
  rw [record, Plain]
  induction members with
  | nil => simp [MembersPlain]
  | cons member rest ih => simp [MembersPlain, ih]

@[simp]
theorem plain_text (s : String) : (text s).Plain :=
  rfl

@[simp]
theorem plain_texts (ss : List String) : (texts ss).Plain :=
  allPlain_iff.2 (by simp)

@[simp]
theorem plain_optional (s : Option String) : (optional s).Plain := by
  cases s with
  | none => trivial
  | some s => exact plain_text s

theorem deepest_le_iff {items : List Json} {room : Nat} :
    deepest items ≤ room ↔ ∀ j ∈ items, j.nesting ≤ room := by
  induction items with
  | nil => simp [deepest]
  | cons item rest ih => rw [deepest, Nat.max_le, ih, List.forall_mem_cons]

@[simp]
theorem nesting_texts (ss : List String) : (texts ss).nesting = 1 := by
  have : deepest (ss.map text) ≤ 0 := deepest_le_iff.2 (by simp [text, nesting])
  rw [texts, nesting]
  omega

end MetricQuery.Json
