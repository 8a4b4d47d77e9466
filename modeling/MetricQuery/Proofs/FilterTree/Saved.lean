import MetricQuery.FilterTree.Saved
import MetricQuery.Proofs.FilterTree.FromText
import MetricQuery.Proofs.Json.Record

/-!
# Saved trees

A tree is restored from its saved form if there is room for it.

* `FilterTree.levels`: the nodes from the root of a tree down to its lowest filter.
* `nesting_toJson`: every level costs two, the object of the node and the list in it.
* `node?_toJson`: a tree is read from its saved form node by node.
* `ofJson?_toJson`: with a test of the room first, and refused where the room is too small.
* `FromText.levels_le`: how many levels a tree has that comes from a text.
-/

namespace MetricQuery

open Json

/-! ## Filters -/

namespace Filter

theorem Operation.ofJsonOrNull?_saved (inTree : Bool) (operation : Option Operation) :
    Operation.ofJsonOrNull? inTree ((operation.map Operation.toJson).getD .null) =
      some operation := by
  rcases operation with _ | operation
  · rfl
  · cases operation <;> rfl

/-- A filter is restored from a node of a tree. -/
theorem ofJson?_node (f : Filter) (kind : Json) :
    ofJson? true (.record (("kind", kind) :: f.members)) = some f := by
  have hfields : fields? ["key", "operation", "values"] (.record (("kind", kind) :: f.members)) =
      some [some (text f.key), some ((f.operation.map Operation.toJson).getD .null),
        some (texts f.values)] :=
    fields?_record (("kind", kind) :: f.members)
      (show ["kind", "key", "operation", "values"].Nodup by decide) _
  rw [ofJson?, hfields]
  simp only [required?, withDefault?, Option.bind_eq_bind, Option.bind_some, toText?, text,
    Operation.ofJsonOrNull?_saved, toList?_texts, Option.pure_def]

theorem plain_members (f : Filter) : ∀ member ∈ f.members, member.2.Plain := by
  have hoperation : ((f.operation.map Operation.toJson).getD .null).Plain := by
    cases f.operation with
    | none => trivial
    | some operation => exact plain_text _
  simp [members, hoperation]

end Filter

/-! ## Trees -/

namespace FilterTree

mutual

/-- The levels of a tree: a filter is one, and a group one above its children. -/
def levels : FilterTree → Nat
  | .leaf _ => 1
  | .group _ _ children => levelsAll children + 1

/-- The levels of the highest of some trees. -/
def levelsAll : List FilterTree → Nat
  | [] => 0
  | t :: rest => max (levels t) (levelsAll rest)

end

theorem levelsAll_le_iff {trees : List FilterTree} {bound : Nat} :
    levelsAll trees ≤ bound ↔ ∀ t ∈ trees, t.levels ≤ bound := by
  induction trees with
  | nil => simp [levelsAll]
  | cons t rest ih => rw [levelsAll, Nat.max_le, ih, List.forall_mem_cons]

theorem toJsonAll_eq_map (trees : List FilterTree) : toJsonAll trees = trees.map toJson := by
  induction trees with
  | nil => rfl
  | cons t rest ih => rw [toJsonAll, ih, List.map_cons]

/-- Saved trees hold no numbers. -/
theorem plain_toJson (t : FilterTree) : t.toJson.Plain := by
  induction t with
  | leaf f =>
    rw [toJson, plain_record]
    exact List.forall_mem_cons.2 ⟨plain_text _, f.plain_members⟩
  | group junction negated children ih =>
    have hchildren : (Json.array (toJsonAll children)).Plain := by
      rw [toJsonAll_eq_map]
      exact allPlain_iff.2 (List.forall_mem_map.2 ih)
    have hnegated : (Json.bool negated).Plain := trivial
    rw [toJson, plain_record]
    simp [hchildren, hnegated, Junction.toJson]

mutual

/-- Every level of a tree costs two of its saved form: a node is an object, and there is a list
in it, of values or of children. -/
theorem nesting_toJson : ∀ t : FilterTree, t.toJson.nesting = 2 * t.levels
  | .leaf f => by
    have hoperation : ((f.operation.map Filter.Operation.toJson).getD .null).nesting = 0 := by
      cases f.operation <;> rfl
    simp [toJson, levels, record, Json.nesting, deepestMember, Filter.members, text, hoperation]
  | .group junction negated children => by
    have hchildren := deepest_toJsonAll children
    simp only [toJson, levels, record, List.map, Json.nesting, deepestMember, text,
      Junction.toJson, hchildren]
    omega

theorem deepest_toJsonAll : ∀ trees : List FilterTree,
    deepest (toJsonAll trees) = 2 * levelsAll trees
  | [] => rfl
  | t :: rest => by
    rw [toJsonAll, deepest, nesting_toJson t, deepest_toJsonAll rest, levelsAll]
    omega

end

theorem kind?_record (below : Bool) (members : List (String × Json))
    (h : (members.map Prod.fst).Nodup) {name : String} {kind : Kind}
    (hkind : members.lookup "kind" = some (text name))
    (hname : Kind.ofJson? below (text name) = some kind) :
    kind? below (.record members) = some (kind, .record members) := by
  rw [record, kind?, field?_eq_lookup h, hkind]
  simp only [Option.bind_eq_bind, Option.bind_some, hname, Option.pure_def]

theorem kind?_leaf (below : Bool) (f : Filter) :
    kind? below (toJson (.leaf f)) = some (.filter, toJson (.leaf f)) :=
  kind?_record below (("kind", text "filter") :: f.members)
    (show ["kind", "key", "operation", "values"].Nodup by decide) rfl rfl

section Group

variable (junction : Junction) (negated : Bool) (children : List FilterTree)

/-- The members of a saved group. -/
def groupMembers : List (String × Json) :=
  [("kind", text "group"), ("children", .array (toJsonAll children)),
    ("operator", junction.toJson), ("negated", .bool negated)]

theorem nodup_groupMembers : ((groupMembers junction negated children).map Prod.fst).Nodup :=
  show ["kind", "children", "operator", "negated"].Nodup by decide

theorem kind?_group (below : Bool) :
    kind? below (toJson (.group junction negated children)) =
      some (.group, toJson (.group junction negated children)) :=
  kind?_record below (groupMembers junction negated children)
    (nodup_groupMembers junction negated children) rfl rfl

theorem fields?_group :
    fields? ["children", "operator", "negated"] (toJson (.group junction negated children)) =
      some [some (.array (toJsonAll children)), some junction.toJson, some (.bool negated)] :=
  fields?_record (groupMembers junction negated children)
    (nodup_groupMembers junction negated children) _

end Group

theorem levels_pos (t : FilterTree) : 0 < t.levels := by
  cases t <;> simp [levels]

/-- A tree is read from its saved form, where there are levels enough. -/
theorem node?_toJson {t : FilterTree} : ∀ {room : Nat} (below : Bool), t.levels ≤ room →
    node? room below t.toJson = some t := by
  induction t with
  | leaf f =>
    intro room below hroom
    obtain ⟨room, rfl⟩ := Nat.exists_eq_add_of_le' hroom
    simp only [levels, node?, kind?_leaf, Option.bind_eq_bind, Option.bind_some]
    rw [toJson, f.ofJson?_node]
    rfl
  | group junction negated children ih =>
    intro room below hroom
    obtain ⟨room, rfl⟩ := Nat.exists_eq_add_of_le' (Nat.lt_of_lt_of_le (levels_pos _) hroom)
    have hchildren : toList? (node? room true) (.array (toJsonAll children)) = some children := by
      rw [toJsonAll_eq_map]
      refine toList?_map fun t ht => ih t ht true ?_
      exact levelsAll_le_iff.1 (Nat.le_of_succ_le_succ hroom) t ht
    have hjunction : Junction.ofJson? true junction.toJson = some junction := by
      cases junction <;> rfl
    simp only [node?, kind?_group, fields?_group, Option.bind_eq_bind, Option.bind_some,
      required?, withDefault?, hchildren, hjunction, toBool?, Option.pure_def]

/-- A tree is restored where there is room for its saved form, and refused elsewhere. -/
theorem ofJson?_toJson (t : FilterTree) (room : Nat) :
    ofJson? room t.toJson = if 2 * t.levels ≤ room then some t else none := by
  rw [ofJson?]
  by_cases hroom : 2 * t.levels ≤ room
  · rw [if_pos ((isSound_iff _ _ t.plain_toJson).2 (t.nesting_toJson ▸ hroom)), if_pos hroom,
      node?_toJson false (by omega)]
  · rw [if_neg (fun hsound => hroom ?_), if_neg hroom]
    exact t.nesting_toJson ▸ (isSound_iff _ _ t.plain_toJson).1 hsound

/-- Two groups may stand around the filter of a tree that comes from a text, for every level of
groups with several children. -/
theorem FromText.levels_le {depth : Nat} {t : FilterTree} (h : FromText depth t) :
    t.levels ≤ depth + 2 := by
  induction h with
  | leaf => exact Nat.le_add_left 1 _
  | single => exact Nat.le_add_left 2 _
  | several _ ih =>
    rw [levels]
    exact Nat.succ_le_succ (levelsAll_le_iff.2 ih)

end FilterTree

end MetricQuery
