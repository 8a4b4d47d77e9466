import MetricQuery.Proofs.Query.Session

/-!
# Where a text changes when a group is extended

A group has no mark of its own in the text of a query: there are parentheses around it only if it
has several children, and a `NOT` in front of it only if it is negated.  All the same a child that
is appended to it changes the text at one place.

* `FilterGroup.body` is the text of a group without its `NOT`, and `body_append` says what a child
  more makes of it.
* `FilterGroup.exists_body_eq`: the text around the body of the group that a path leads to does
  not depend on what is appended there; the induction goes down the path, and at each step
  `exists_joinParts_eq` finds the text around one of several parts.
* `Query.render_addToGroup`: so in the text of a query only the body of the group changes.
-/

namespace MetricQuery

/-! ## Parts of a text -/

theorem exists_intercalate_eq (joint : String) (front back : List String) :
    ∃ before behind, ∀ part,
      joint.intercalate (front ++ part :: back) = before ++ part ++ behind := by
  have hpart : ∃ behind, ∀ part, joint.intercalate (part :: back) = part ++ behind := by
    by_cases hback : back = []
    · exact ⟨"", fun part => by simp [hback]⟩
    · exact ⟨joint ++ joint.intercalate back, fun part => by
        rw [String.intercalate_cons_of_ne_nil hback, String.append_assoc]⟩
  obtain ⟨behind, hbehind⟩ := hpart
  by_cases hfront : front = []
  · exact ⟨"", behind, fun part => by simp [hfront, hbehind]⟩
  · refine ⟨joint.intercalate front ++ joint, behind, fun part => ?_⟩
    rw [String.intercalate_append_of_ne_nil hfront (by simp), hbehind]
    simp only [String.append_assoc]

/-- The text around one of the parts that are joined does not depend on that part. -/
theorem exists_joinParts_eq (junction : Junction) (front back : List String) :
    ∃ before behind, ∀ part,
      joinParts junction false (front ++ part :: back) = before ++ part ++ behind := by
  obtain ⟨before, behind, hjoined⟩ :=
    exists_intercalate_eq s!" {junction.word} " front back
  by_cases hseveral : 1 < front.length + (back.length + 1)
  · refine ⟨"(" ++ before, behind ++ ")", fun part => ?_⟩
    simp only [joinParts, hjoined, List.length_append, List.length_cons, hseveral]
    simp [String.append_assoc]
  · refine ⟨before, behind, fun part => ?_⟩
    simp only [joinParts, hjoined, List.length_append, List.length_cons, hseveral]
    simp

/-! ## Texts of groups -/

namespace FilterGroup

/-- The texts of the children with the word between them that joins them. -/
def joined (g : FilterGroup) : String :=
  s!" {g.junction.word} ".intercalate (g.children.map FilterTree.written)

/-- The text of a group without the `NOT` in front of it. -/
def body (g : FilterGroup) : String :=
  joinParts g.junction false (g.children.map FilterTree.written)

theorem written_toTree (g : FilterGroup) :
    g.toTree.written = (if g.negated then "NOT " else "") ++ g.body := by
  rw [toTree, FilterTree.written, FilterTree.writtenAll_eq_map, body, joinParts, joinParts]
  cases g.negated <;> simp

/-- Parentheses stand around several children. -/
theorem body_eq (g : FilterGroup) :
    g.body = if 1 < g.children.length then "(" ++ g.joined ++ ")" else g.joined := by
  simp [body, joinParts, joined]

/-- With a child more there are several. -/
theorem body_append {g : FilterGroup} (h : g.children ≠ []) (tree : FilterTree) :
    (g.append tree).body = "(" ++ g.joined ++ s!" {g.junction.word} " ++ tree.written ++ ")" := by
  have hseveral : 1 < (g.append tree).children.length := by
    have := List.length_pos_iff.2 h
    simp only [append, List.length_append, List.length_singleton]
    omega
  have hjoined : (g.append tree).joined =
      g.joined ++ s!" {g.junction.word} " ++ tree.written := by
    rw [joined, append, List.map_append,
      String.intercalate_append_of_ne_nil (by simpa using h) (by simp), List.map_singleton,
      String.intercalate_singleton, joined]
  rw [body_eq, if_pos hseveral, hjoined]
  simp only [String.append_assoc]

/-- The text around one of the children does not depend on that child. -/
theorem exists_body_set (g : FilterGroup) {i : Nat} (h : i < g.children.length) :
    ∃ before behind, ∀ t : FilterTree,
      body { g with children := g.children.set i t } = before ++ t.written ++ behind := by
  obtain ⟨before, behind, hparts⟩ := exists_joinParts_eq g.junction
    ((g.children.take i).map FilterTree.written) ((g.children.drop (i + 1)).map FilterTree.written)
  refine ⟨before, behind, fun t => ?_⟩
  rw [← hparts, body, List.set_eq_take_append_cons_drop, if_pos h, List.map_append, List.map_cons]

/-- Around the body of the group that a path leads to stands a text that does not depend on what is
appended to the group. -/
theorem exists_body_eq {path : List Nat} {g target : FilterGroup} (h : at? path g = some target) :
    ∃ before behind, g.body = before ++ target.body ++ behind ∧
      ∀ {tree : FilterTree} {g' : FilterGroup}, AppendedAt tree path g g' →
        g'.body = before ++ (target.append tree).body ++ behind := by
  induction path generalizing g with
  | nil =>
    obtain rfl := Option.some.inj h
    refine ⟨"", "", by simp, fun {tree g'} happended => ?_⟩
    cases happended
    simp
  | cons i path ih =>
    obtain ⟨child, ht, htarget⟩ := exists_child_of_at? h
    -- Around the target there is the rest of the child, and around that the rest of the group.
    obtain ⟨inner, outer, hbody, hbody'⟩ := ih htarget
    obtain ⟨hlt, hget⟩ := List.getElem?_eq_some_iff.1 ht
    obtain ⟨before, behind, hset⟩ := g.exists_body_set hlt
    refine ⟨before ++ (if child.negated then "NOT " else "") ++ inner, outer ++ behind, ?_, ?_⟩
    · have hself := hset child.toTree
      rw [← hget, List.set_getElem_self, hget, written_toTree, hbody] at hself
      simpa only [String.append_assoc] using hself
    · intro tree g' happended
      cases happended with
      | @within _ child' child'' _ _ hchild' hwithin =>
        have hsame : child' = child :=
          Option.some.inj (congrArg (fun t => t.bind FilterTree.group?) (hchild'.symm.trans ht))
        subst hsame
        rw [hset, written_toTree, hwithin.grown.negated, hbody' hwithin]
        simp only [String.append_assoc]

/-- Paths from a complete group lead to complete groups. -/
theorem complete_at? {path : List Nat} {g target : FilterGroup} (h : at? path g = some target)
    (hg : g.toTree.Complete) : target.toTree.Complete := by
  induction path generalizing g with
  | nil =>
    obtain rfl := Option.some.inj h
    exact hg
  | cons i path ih =>
    obtain ⟨child, ht, htarget⟩ := exists_child_of_at? h
    cases hg with
    | group _ hchildren => exact ih htarget (hchildren _ (List.mem_of_getElem? ht))

/-- A group is among the children of what a path goes on from. -/
theorem isGroup_of_at? {i : Nat} {path : List Nat} {g target : FilterGroup}
    (h : at? (i :: path) g = some target) : g.children.any FilterTree.isGroup = true := by
  obtain ⟨child, ht, -⟩ := exists_child_of_at? h
  exact List.any_eq_true.2 ⟨child.toTree, List.mem_of_getElem? ht, rfl⟩

end FilterGroup

namespace Query

/-- The group of all filters of a query. -/
def root (q : Query) : FilterGroup :=
  ⟨q.filterList, .and, false⟩

/-- With a group among its filters a query has them written as one group. -/
theorem written_eq_body {q : Query} (h : q.filterList.any FilterTree.isGroup = true) :
    q.written = q.renderAggregator ++ q.metric ++ "\x7b" ++ q.root.body ++ "\x7d" ++ q.renderTags ++
      String.join (q.functionList.map FunctionCall.written) := by
  rw [written, writtenBlock_of_isGroup h, FilterTree.written, FilterTree.writtenAll_eq_map]
  rfl

/-- Appending to a group changes the text of a query only at the end of the text of that group: in
front of its closing parenthesis if it has several children, and else behind its only child, which
is put into parentheses with the new one. -/
theorem render_addToGroup {q : Query} {path : GroupPath} {g : FilterGroup} {text : String}
    (h : q.render = .ok text) (hgroup : q.groupAt? path = some g) :
    g.children ≠ [] ∧ ∃ before body inner behind, text = before ++ body ++ behind ∧
      g.render = .ok ((if g.negated then "NOT " else "") ++ body) ∧
      body = (if 1 < g.children.length then "(" ++ inner ++ ")" else inner) ∧
      ∀ tree added, tree.render = .ok added →
        (q.addToGroup (some path) tree).render =
          .ok (before ++ ("(" ++ inner ++ s!" {g.junction.word} " ++ added ++ ")") ++ behind) := by
  obtain ⟨hcomplete, rfl⟩ := render_eq_ok_iff.1 h
  obtain ⟨_ | ⟨i, rest⟩⟩ := path
  · simp [groupAt?, FilterTree.groupAt?] at hgroup
  have hat : FilterGroup.at? (i :: rest) q.root = some g := by rw [← hgroup, groupAt?_cons, root]
  have hany := FilterGroup.isGroup_of_at? hat
  have hroot : q.root.toTree.Complete := by
    refine .group (fun hnone => ?_) hcomplete.trees
    rw [hnone] at hany
    simp at hany
  have htarget := FilterGroup.complete_at? hat hroot
  have hne : g.children ≠ [] := by
    cases htarget with
    | group hne _ => exact hne
  obtain ⟨before, behind, hbody, hbody'⟩ := FilterGroup.exists_body_eq hat
  refine ⟨hne, q.renderAggregator ++ q.metric ++ "\x7b" ++ before, g.body, g.joined,
    behind ++ "\x7d" ++ q.renderTags ++ String.join (q.functionList.map FunctionCall.written),
    ?_, ?_, g.body_eq, fun tree added hadded => ?_⟩
  · rw [written_eq_body hany, hbody]
    simp only [String.append_assoc]
  · exact FilterTree.render_eq_ok_iff.2 ⟨htarget, g.written_toTree.symm⟩
  · -- The query stays complete, and its block stays a group: both are about all of its filters.
    obtain ⟨htree, rfl⟩ := FilterTree.render_eq_ok_iff.1 hadded
    obtain ⟨trees, heq, happended⟩ := addToGroup_of_some tree hgroup
    have hcomplete' : Complete { q with filterList := trees } :=
      ⟨hcomplete.metric_ne, happended.complete htree hcomplete.trees, hcomplete.calls⟩
    have hany' : trees.any FilterTree.isGroup = true := by
      have hat' := happended.at?_target
      rw [show FilterGroup.at? (i :: rest) ⟨q.filterList, .and, false⟩ = some g from hat] at hat'
      exact FilterGroup.isGroup_of_at? hat'
    have hextended := hbody' happended
    rw [FilterGroup.body_append hne] at hextended
    rw [heq, render_eq_ok_iff.2 ⟨hcomplete', rfl⟩, written_eq_body hany', root, hextended]
    simp only [String.append_assoc]
    rfl

/-- A negated group of one child, inside a negated group. -/
theorem render_addToGroup_nested :
    let leaf (key : String) : FilterTree := .leaf ⟨key, some .equal, ["1"]⟩
    let single : FilterGroup := ⟨[leaf "b"], .or, true⟩
    let q : Query :=
      { metric := "m", filterList := [.group .and true [leaf "a", single.toTree], leaf "c"] }
    let text := "m\x7b(NOT (a:1 AND NOT b:1) AND c:1)\x7d"
    q.render = .ok text ∧ q.groupAt? ⟨[0, 1]⟩ = some single ∧ (leaf "d").render = .ok "d:1" ∧
      ∃ before inner behind, text = before ++ inner ++ behind ∧
        single.render = .ok ("NOT " ++ inner) ∧
        (q.addToGroup (some ⟨[0, 1]⟩) (leaf "d")).render =
          .ok (before ++ ("(" ++ inner ++ s!" {single.junction.word} " ++ "d:1" ++ ")") ++
            behind) := by
  intro leaf single q text
  have hrender : q.render = .ok text := by decide +kernel
  have hgroup : q.groupAt? ⟨[0, 1]⟩ = some single := rfl
  have hadded : (leaf "d").render = .ok "d:1" := by decide +kernel
  obtain ⟨-, before, body, inner, behind, htext, hsingle, hbody, hextended⟩ :=
    render_addToGroup hrender hgroup
  rw [show body = inner from hbody] at htext hsingle
  exact ⟨hrender, hgroup, hadded, before, inner, behind, htext, hsingle,
    hextended (leaf "d") "d:1" hadded⟩

end Query

end MetricQuery
