import Mathlib.Tactic.ByContra
import MetricQuery.Query.Basic

/-!
# What can be written, and how

Writing a filter, a tree or a query either names a defect or gives a text.  Here the two
are taken apart: `Complete` says that a part has no defect, and `written` is its text
without any check.  `render_eq_ok_iff` of each kind says that writing succeeds exactly on
what is complete, and then gives that text.

`FilterTree.inductionOn` is the induction over trees that the proofs use: what holds of a
group may be shown from what holds of its children.
-/

namespace MetricQuery

/-! ## Filters -/

namespace Filter

open Text

/-- How many values the operations compare with: one, or for a list any number but none. -/
def Operation.Takes : Operation → List String → Prop
  | .equal, values => values.length = 1
  | .notEqual, values => values.length = 1
  | .regex, values => values.length = 1
  | .oneOf, values => values ≠ []
  | .noneOf, values => values ≠ []

theorem Operation.takes_iff {operation : Operation} {values : List String} :
    operation.Takes values ↔ if operation.isList then values ≠ [] else values.length = 1 := by
  cases operation <;> exact Iff.rfl

/-- Nothing is missing from the filter: a key made of key characters, an operation with as
many values as it takes, and no empty value. -/
structure Complete (f : Filter) : Prop where
  key_ne : f.key ≠ ""
  keyChars : ∀ c ∈ f.key.toList, isKeyChar c = true
  values : ∃ operation, f.operation = some operation ∧ operation.Takes f.values
  value_ne : ∀ v ∈ f.values, v ≠ ""

/-- The text of a filter, nothing being checked. -/
def written (f : Filter) : String :=
  match f.operation with
  | some operation => write f.key operation f.values
  | none => ""

/-- With its operation, a filter has no defect exactly if it is complete. -/
theorem defectWith?_eq_none_iff {f : Filter} {operation : Operation} (hkey : f.key ≠ "")
    (hop : f.operation = some operation) :
    f.defectWith? operation = none ↔ f.Complete := by
  have hempty : f.values.any String.isEmpty = true ↔ ¬ ∀ v ∈ f.values, v ≠ "" := by
    simp [String.isEmpty_iff]
  have hchars : f.key.toList.all isKeyChar = true ↔ ∀ c ∈ f.key.toList, isKeyChar c = true :=
    List.all_eq_true
  constructor
  · intro h
    simp only [defectWith?] at h
    split at h
    · simp at h
    next hlist =>
    split at h
    · simp at h
    next hcount =>
    split at h
    · simp at h
    next hall =>
    split at h
    · simp at h
    next hany =>
    refine ⟨hkey, hchars.1 (by simpa using hall), ⟨operation, hop, ?_⟩, ?_⟩
    · rw [Operation.takes_iff]
      cases hkind : operation.isList
      · simpa [hkind] using hcount
      · simpa [hkind] using hlist
    · exact not_not.1 fun hne => hany (hempty.2 hne)
  · rintro ⟨-, hall, ⟨operation', hop', hcount⟩, hne⟩
    obtain rfl : operation = operation' := Option.some.inj (hop.symm.trans hop')
    have hany : f.values.any String.isEmpty = false := by
      rw [← Bool.not_eq_true, hempty]
      exact not_not.2 hne
    rw [Operation.takes_iff] at hcount
    cases hkind : operation.isList
    · simp [hkind] at hcount
      simp [defectWith?, hkind, hcount, hchars.2 hall, hany]
    · simp [hkind] at hcount
      simp [defectWith?, hkind, hcount, hchars.2 hall, hany]

theorem render_eq_ok_iff {f : Filter} {text : String} :
    f.render = .ok text ↔ f.Complete ∧ text = f.written := by
  by_cases hkey : f.key = ""
  · have hcheck : f.check = .error .noFilterKey := by simp [check, hkey]
    simp only [render, hcheck, reduceCtorEq, false_iff, not_and]
    exact fun hcomplete => absurd hkey hcomplete.key_ne
  · cases hop : f.operation with
    | none =>
      have hcheck : f.check = .error (.noOperation f.key) := by
        simp [check, String.isEmpty_iff, hkey, hop]
      simp only [render, hcheck, reduceCtorEq, false_iff, not_and]
      intro hcomplete
      obtain ⟨operation, hsome, -⟩ := hcomplete.values
      simp [hop] at hsome
    | some operation =>
      have hdefect := defectWith?_eq_none_iff hkey hop
      cases hfound : f.defectWith? operation with
      | none =>
        have hcheck : f.check = .ok operation := by
          simp [check, String.isEmpty_iff, hkey, hop, hfound]
        simp only [render, hcheck, written, hop, Except.ok.injEq]
        exact ⟨fun h => ⟨hdefect.1 hfound, h.symm⟩, fun h => h.2.symm⟩
      | some defect =>
        have hcheck : f.check = .error defect := by
          simp [check, String.isEmpty_iff, hkey, hop, hfound]
        simp only [render, hcheck, reduceCtorEq, false_iff, not_and]
        intro hcomplete
        rw [hdefect.2 hcomplete] at hfound
        simp at hfound

end Filter

/-! ## Trees -/

namespace FilterTree

/-- What holds of every filter, and of a group if it holds of its children, holds of every
tree. -/
@[elab_as_elim, induction_eliminator]
theorem inductionOn {motive : FilterTree → Prop} (leaf : ∀ f, motive (.leaf f))
    (group : ∀ junction negated children, (∀ t ∈ children, motive t) →
      motive (.group junction negated children)) (t : FilterTree) : motive t := by
  refine FilterTree.rec (motive_1 := motive) (motive_2 := fun ts => ∀ t ∈ ts, motive t)
    leaf group ?_ ?_ t
  · intro t ht
    simp at ht
  · intro head tail hhead htail t ht
    rcases List.mem_cons.1 ht with rfl | ht
    · exact hhead
    · exact htail t ht

mutual

/-- All filters of a tree, in order. -/
def filters : FilterTree → List Filter
  | .leaf f => [f]
  | .group _ _ children => filtersAll children

/-- All filters of some trees, in order. -/
def filtersAll : List FilterTree → List Filter
  | [] => []
  | t :: rest => filters t ++ filtersAll rest

end

theorem mem_filtersAll {f : Filter} {trees : List FilterTree} :
    f ∈ filtersAll trees ↔ ∃ t ∈ trees, f ∈ t.filters := by
  induction trees with
  | nil => simp [filtersAll]
  | cons t rest ih => simp [filtersAll, ih]

/-- The filters of a child are filters of the group. -/
theorem mem_filters_group {f : Filter} {t : FilterTree} {junction : Junction} {negated : Bool}
    {children : List FilterTree} (ht : t ∈ children) (hf : f ∈ t.filters) :
    f ∈ (group junction negated children).filters :=
  mem_filtersAll.2 ⟨t, ht, hf⟩

/-- Every filter of the tree is complete, and no group is without children. -/
inductive Complete : FilterTree → Prop where
  | leaf {f : Filter} (hfilter : f.Complete) : Complete (.leaf f)
  | group {junction : Junction} {negated : Bool} {children : List FilterTree}
      (hne : children ≠ []) (hchildren : ∀ t ∈ children, Complete t) :
      Complete (.group junction negated children)

mutual

/-- The text of a tree, nothing being checked. -/
def written : FilterTree → String
  | .leaf f => f.written
  | .group junction negated children => joinParts junction negated (writtenAll children)

/-- The texts of some trees. -/
def writtenAll : List FilterTree → List String
  | [] => []
  | t :: rest => written t :: writtenAll rest

end

theorem writtenAll_eq_map (trees : List FilterTree) : writtenAll trees = trees.map written := by
  induction trees with
  | nil => rfl
  | cons t rest ih => simp [writtenAll, ih]

theorem inContext_eq_ok_iff {α : Type} {context : Context} {result : Except QueryError α}
    {a : α} : inContext context result = .ok a ↔ result = .ok a := by
  cases result <;> simp [inContext]

/-- The trees of a list are written one by one, if writing each of them succeeds exactly
on what is complete. -/
theorem renderFrom_eq_ok_iff (context : Nat → Context) {trees : List FilterTree}
    (h : ∀ t ∈ trees, ∀ text, t.render = .ok text ↔ t.Complete ∧ text = t.written) :
    ∀ index parts, renderFrom context index trees = .ok parts ↔
      (∀ t ∈ trees, t.Complete) ∧ parts = trees.map written := by
  induction trees with
  | nil => simp [renderFrom, pure, Except.pure, eq_comm]
  | cons t rest ih =>
    intro index parts
    have hrest := ih fun u hu => h u (by simp [hu])
    have hhead := h t (by simp)
    rw [renderFrom]
    cases hpart : inContext (context index) t.render with
    | error e =>
      simp only [bind, Except.bind, reduceCtorEq, List.map_cons, false_iff, not_and]
      intro hcomplete
      have hok := (hhead t.written).2 ⟨hcomplete t (by simp), rfl⟩
      rw [hok] at hpart
      simp [inContext] at hpart
    | ok part =>
      obtain ⟨hcomplete, rfl⟩ := (hhead part).1 (inContext_eq_ok_iff.1 hpart)
      cases hparts : renderFrom context (index + 1) rest with
      | error e =>
        simp only [bind, Except.bind, reduceCtorEq, List.map_cons, false_iff, not_and]
        intro hall
        have hok := (hrest (index + 1) _).2 ⟨fun u hu => hall u (by simp [hu]), rfl⟩
        rw [hok] at hparts
        simp at hparts
      | ok others =>
        obtain ⟨hall, rfl⟩ := (hrest _ _).1 hparts
        simp only [bind, Except.bind, pure, Except.pure, Except.ok.injEq, List.map_cons]
        constructor
        · rintro rfl
          exact ⟨by simpa using ⟨hcomplete, hall⟩, rfl⟩
        · rintro ⟨-, rfl⟩
          rfl

theorem render_eq_ok_iff {t : FilterTree} {text : String} :
    t.render = .ok text ↔ t.Complete ∧ text = t.written := by
  induction t generalizing text with
  | leaf f =>
    rw [render, Filter.render_eq_ok_iff, written]
    exact ⟨fun h => ⟨.leaf h.1, h.2⟩, fun h => ⟨by cases h.1; assumption, h.2⟩⟩
  | group junction negated children ih =>
    cases children with
    | nil =>
      simp only [render, reduceCtorEq, false_iff, not_and]
      intro hcomplete
      cases hcomplete with
      | group hne _ => exact absurd rfl hne
    | cons child rest =>
      have hparts := renderFrom_eq_ok_iff .child fun t ht text => ih t ht
      rw [render]
      cases hfound : renderFrom .child 0 (child :: rest) with
      | error e =>
        simp only [bind, Except.bind, reduceCtorEq, false_iff, not_and]
        intro hcomplete
        cases hcomplete with
        | group _ hchildren =>
          rw [(hparts _ _).2 ⟨hchildren, rfl⟩] at hfound
          simp at hfound
      | ok parts =>
        obtain ⟨hall, rfl⟩ := (hparts _ _).1 hfound
        simp only [bind, Except.bind, pure, Except.pure, Except.ok.injEq, written,
          writtenAll_eq_map]
        exact ⟨fun h => ⟨.group (by simp) hall, h.symm⟩, fun h => h.2.symm⟩

end FilterTree

/-! ## Blocks and queries -/

/-- The text of a block, nothing being checked. -/
def writtenBlock (trees : List FilterTree) : String :=
  if trees.isEmpty then "*"
  else if trees.any FilterTree.isGroup then joinParts .and false (trees.map FilterTree.written)
  else ", ".intercalate (trees.map FilterTree.written)

/-- A block with a group in it is written as one group. -/
theorem writtenBlock_of_isGroup {trees : List FilterTree}
    (h : trees.any FilterTree.isGroup = true) :
    writtenBlock trees = (FilterTree.group .and false trees).written := by
  have hne : ¬ trees.isEmpty = true := fun hempty => by
    simp [List.isEmpty_iff.1 hempty] at h
  rw [writtenBlock, if_neg hne, if_pos h, FilterTree.written, FilterTree.writtenAll_eq_map]

theorem renderBlock_eq_ok_iff {trees : List FilterTree} {text : String} :
    renderBlock trees = .ok text ↔ (∀ t ∈ trees, t.Complete) ∧ text = writtenBlock trees := by
  rw [renderBlock, writtenBlock]
  cases trees with
  | nil => simp [pure, Except.pure, eq_comm]
  | cons t rest =>
    simp only [List.isEmpty_cons, Bool.false_eq_true, if_false]
    by_cases hgroup : (t :: rest).any FilterTree.isGroup = true
    · rw [if_pos hgroup, if_pos hgroup, FilterTree.render_eq_ok_iff, FilterTree.written,
        FilterTree.writtenAll_eq_map]
      constructor
      · rintro ⟨hcomplete, rfl⟩
        cases hcomplete with
        | group _ hchildren => exact ⟨hchildren, rfl⟩
      · rintro ⟨hall, rfl⟩
        exact ⟨.group (by simp) hall, rfl⟩
    · rw [if_neg hgroup, if_neg hgroup]
      have hall : ∀ u ∈ t :: rest, ∀ text, u.render = .ok text ↔ u.Complete ∧ text = u.written :=
        fun _ _ _ => FilterTree.render_eq_ok_iff
      have hparts := FilterTree.renderFrom_eq_ok_iff .filter hall
      cases hfound : FilterTree.renderFrom .filter 0 (t :: rest) with
      | error e =>
        simp only [bind, Except.bind, reduceCtorEq, false_iff, not_and]
        intro hall
        rw [(hparts _ _).2 ⟨hall, rfl⟩] at hfound
        simp at hfound
      | ok parts =>
        obtain ⟨hall, rfl⟩ := (hparts _ _).1 hfound
        simp only [bind, Except.bind, pure, Except.pure, Except.ok.injEq]
        exact ⟨fun h => ⟨hall, h.symm⟩, fun h => h.2.symm⟩

/-- The text of a call, nothing being checked. -/
def FunctionCall.written (call : FunctionCall) : String :=
  "." ++ call.name ++ "(" ++ ", ".intercalate call.arguments ++ ")"

theorem FunctionCall.render_eq_ok_iff {call : FunctionCall} {text : String} :
    call.render = .ok text ↔ call.name ≠ "" ∧ text = call.written := by
  rw [FunctionCall.render]
  by_cases hname : call.name = ""
  · simp [hname]
  · simp only [String.isEmpty_iff, hname, if_false, Except.ok.injEq, ne_eq, not_false_eq_true,
      true_and, written]
    exact eq_comm

namespace Query

/-- Nothing is missing from the query. -/
structure Complete (q : Query) : Prop where
  metric_ne : q.metric ≠ ""
  trees : ∀ t ∈ q.filterList, t.Complete
  calls : ∀ call ∈ q.functionList, call.name ≠ ""

/-- The text of a query, nothing being checked. -/
def written (q : Query) : String :=
  q.renderAggregator ++ q.metric ++ "\x7b" ++ writtenBlock q.filterList ++ "\x7d" ++ q.renderTags
    ++ String.join (q.functionList.map FunctionCall.written)

theorem renderCalls_eq_ok_iff {calls : List FunctionCall} :
    ∀ index parts, renderCalls index calls = .ok parts ↔
      (∀ call ∈ calls, call.name ≠ "") ∧ parts = calls.map FunctionCall.written := by
  induction calls with
  | nil =>
    intro index parts
    simp only [renderCalls, pure, Except.pure, Except.ok.injEq, List.not_mem_nil,
      false_implies, implies_true, true_and, List.map_nil]
    exact eq_comm
  | cons call rest ih =>
    intro index parts
    rw [renderCalls]
    by_cases hname : call.name = ""
    · have herror : ∀ text, call.render ≠ .ok text := fun text h =>
        (FunctionCall.render_eq_ok_iff.1 h).1 hname
      cases hrender : call.render with
      | error e =>
        simp only [inContext, bind, Except.bind, reduceCtorEq, false_iff, not_and]
        exact fun hall => absurd hname (hall call (by simp))
      | ok part => exact absurd hrender (herror part)
    · have hrender : call.render = .ok call.written :=
        FunctionCall.render_eq_ok_iff.2 ⟨hname, rfl⟩
      cases hothers : renderCalls (index + 1) rest with
      | error e =>
        simp only [hrender, inContext, bind, Except.bind, reduceCtorEq, false_iff, not_and]
        intro hall
        rw [(ih _ _).2 ⟨fun c hc => hall c (by simp [hc]), rfl⟩] at hothers
        simp at hothers
      | ok others =>
        obtain ⟨hall, rfl⟩ := (ih _ _).1 hothers
        simp only [hrender, inContext, bind, Except.bind, pure, Except.pure, Except.ok.injEq,
          List.map_cons]
        constructor
        · rintro rfl
          exact ⟨by simpa using ⟨hname, hall⟩, rfl⟩
        · rintro ⟨-, rfl⟩
          rfl

/-- A query is written exactly if it is complete. -/
theorem render_eq_ok_iff {q : Query} {text : String} :
    q.render = .ok text ↔ q.Complete ∧ text = q.written := by
  rw [render]
  by_cases hmetric : q.metric = ""
  · rw [if_pos (by simp [hmetric])]
    simp only [reduceCtorEq, false_iff, not_and]
    exact fun hcomplete => absurd hmetric hcomplete.metric_ne
  · rw [if_neg (by simp [String.isEmpty_iff, hmetric])]
    cases hblock : renderBlock q.filterList with
    | error e =>
      simp only [inContext, bind, Except.bind, reduceCtorEq, false_iff, not_and]
      intro hcomplete
      rw [renderBlock_eq_ok_iff.2 ⟨hcomplete.trees, rfl⟩] at hblock
      simp at hblock
    | ok block =>
      obtain ⟨htrees, rfl⟩ := renderBlock_eq_ok_iff.1 hblock
      cases hcalls : renderCalls 0 q.functionList with
      | error e =>
        simp only [inContext, bind, Except.bind, reduceCtorEq, false_iff, not_and]
        intro hcomplete
        rw [(renderCalls_eq_ok_iff _ _).2 ⟨hcomplete.calls, rfl⟩] at hcalls
        simp at hcalls
      | ok calls =>
        obtain ⟨hnames, rfl⟩ := (renderCalls_eq_ok_iff _ _).1 hcalls
        simp only [inContext, bind, Except.bind, pure, Except.pure, Except.ok.injEq]
        exact ⟨fun h => ⟨⟨hmetric, htrees, hnames⟩, h.symm⟩, fun h => h.2.symm⟩

end Query

end MetricQuery
