import MetricQuery.FilterTree.OfBlock

/-!
# A filter list by its segments

`FilterTree.ofBlock` reads a list from left to right, with a state of open groups and flags: the
first `AND` or `OR` of a segment takes back the tree that was read last and opens a group with
it.  Here the list is taken apart instead: it is cut at its commas, and each segment is looked
at as a whole.

* `Piece` is what a list is made of once its operands are taken for something: trees here,
  truth values where the meaning of a list is defined.
* `Separator.negates`, `Separator.junction?` and `FilterTree.opposite` say what the separators
  mean; `Ingest.effect_of_junction?` and `FilterTree.negate_eq_opposite`, that the reader agrees.
* `Piece.operands` and `Piece.junction` say what a segment joins and by which word, and
  `Piece.Alternates` that operands and separators alternate.
* `Ingest.Stands` says what a state stands for: the trees of the segments that are ended, and the
  operands of the one in progress.  It is the invariant of the reader, and every step has its
  lemma.
* `Ingest.run_eq_ok_iff` says what a run of the reader gives, from any such state.
* `FilterTree.ofBlock_eq_ok_iff` is the result: what is accepted, and the trees in terms of
  segments.
-/

namespace MetricQuery

/-- Does the separator negate the operand behind it? -/
def Separator.negates : Separator → Bool
  | .not => true
  | .andNot => true
  | .orNot => true
  | _ => false

/-- The word by which a separator joins the operands on both sides, if it does. -/
def Separator.junction? : Separator → Option Junction
  | .and => some .and
  | .andNot => some .and
  | .or => some .or
  | .orNot => some .or
  | .comma => none
  | .not => none

/-! ## Pieces of a list -/

/-- A separator, or an operand taken for something. -/
inductive Piece (α : Type) where
  | separator (sep : Separator)
  | operand (a : α)
  deriving DecidableEq

namespace Piece

variable {α β : Type}

/-- The piece with its operand taken for something else. -/
def map (f : α → β) : Piece α → Piece β
  | .separator sep => .separator sep
  | .operand a => .operand (f a)

/-- Does a segment end here? -/
def isComma : Piece α → Bool
  | .separator .comma => true
  | _ => false

/-- The operands of a segment.  An odd number of negations in front of an operand turns it
into its opposite; `odd` says whether those read so far are odd in number. -/
def operands (opposite : α → α) : Bool → List (Piece α) → List α
  | _, [] => []
  | odd, .separator sep :: rest => operands opposite (odd != sep.negates) rest
  | odd, .operand a :: rest => (if odd then opposite a else a) :: operands opposite false rest

/-- The word that joins the operands on both sides, if the piece has one. -/
def joinsBy? : Piece α → Option Junction
  | .separator sep => sep.junction?
  | .operand _ => none

/-- The word that joins a segment: the last one in it, or else the given one. -/
def junction : Junction → List (Piece α) → Junction
  | word, [] => word
  | word, piece :: rest => junction (piece.joinsBy?.getD word) rest

def isSeparator : Piece α → Bool
  | .separator _ => true
  | .operand _ => false

/-- May the piece come next?  Where an operand is due, only that and a `NOT` may, and
elsewhere only the other separators. -/
def Fits (due : Bool) : Piece α → Prop
  | .separator sep => due = true ↔ sep = .not
  | .operand _ => due = true

/-- Operands and separators alternate, where any number of `NOT`s may stand in front of an
operand.  `due` says whether an operand has to come. -/
def Alternates : Bool → List (Piece α) → Prop
  | due, [] => due = false
  | due, piece :: rest => piece.Fits due ∧ Alternates piece.isSeparator rest

theorem splitOnP_isComma_cons {piece : Piece α} (h : piece.isComma = false)
    (rest : List (Piece α)) :
    ∃ segment others, rest.splitOnP isComma = segment :: others ∧
      (piece :: rest).splitOnP isComma = (piece :: segment) :: others := by
  obtain ⟨segment, others, hsplit⟩ :=
    List.exists_cons_of_ne_nil (List.splitOnP_ne_nil isComma rest)
  refine ⟨segment, others, hsplit, ?_⟩
  rw [List.splitOnP_cons_eq_if_modifyHead, hsplit, h]
  rfl

theorem splitOnP_isComma_comma (rest : List (Piece α)) :
    ((.separator .comma : Piece α) :: rest).splitOnP isComma = [] :: rest.splitOnP isComma := by
  rw [List.splitOnP_cons_eq_if_modifyHead]
  rfl

/-- What is in a segment is in the list. -/
theorem mem_of_mem_segment {piece : Piece α} {segment pieces : List (Piece α)}
    (hsegment : segment ∈ pieces.splitOnP isComma) (h : piece ∈ segment) : piece ∈ pieces := by
  induction pieces generalizing segment with
  | nil =>
    obtain rfl : segment = [] := by simpa using hsegment
    simp at h
  | cons first rest ih =>
    rw [List.splitOnP_cons_eq_if_modifyHead] at hsegment
    split at hsegment
    · rcases List.mem_cons.1 hsegment with rfl | hsegment
      · simp at h
      · exact List.mem_cons_of_mem first (ih hsegment h)
    · obtain ⟨second, others, hsplit⟩ :=
        List.exists_cons_of_ne_nil (List.splitOnP_ne_nil isComma rest)
      rw [hsplit] at hsegment ih
      rcases List.mem_cons.1 hsegment with rfl | hsegment
      · rcases List.mem_cons.1 h with rfl | h
        · exact List.mem_cons_self
        · exact List.mem_cons_of_mem first (ih List.mem_cons_self h)
      · exact List.mem_cons_of_mem first (ih (List.mem_cons_of_mem second hsegment) h)

/-- The first segment has an operand if one is due, and the others have one anyway. -/
theorem segments_of_alternates (opposite : α → α) {pieces : List (Piece α)} {due : Bool}
    (h : Alternates due pieces) :
    ∃ segment others, pieces.splitOnP isComma = segment :: others ∧
      (due = true → ∀ odd, operands opposite odd segment ≠ []) ∧
      ∀ other ∈ others, operands opposite false other ≠ [] := by
  induction pieces generalizing due with
  | nil =>
    obtain rfl : due = false := h
    exact ⟨[], [], by simp, by simp, by simp⟩
  | cons piece rest ih =>
    obtain ⟨hfits, halternates⟩ := h
    obtain ⟨segment, others, hsplit, hfirst, hothers⟩ := ih halternates
    cases hcomma : piece.isComma with
    | true =>
      obtain rfl : piece = .separator .comma := by
        unfold isComma at hcomma
        split at hcomma
        · rfl
        · simp at hcomma
      refine ⟨[], segment :: others, ?_, ?_, ?_⟩
      · rw [splitOnP_isComma_comma, hsplit]
      · exact fun hdue => absurd (hfits.1 hdue) (by simp)
      · exact List.forall_mem_cons.2 ⟨hfirst rfl false, hothers⟩
    | false =>
      refine ⟨piece :: segment, others, ?_, fun _ odd => ?_, hothers⟩
      · rw [List.splitOnP_cons_eq_if_modifyHead, hsplit, hcomma]
        rfl
      · cases piece with
        | separator sep => exact hfirst rfl _
        | operand a => simp [operands]

/-- Every segment has an operand. -/
theorem operands_ne_nil (opposite : α → α) {segment pieces : List (Piece α)}
    (h : Alternates true pieces) (hsegment : segment ∈ pieces.splitOnP isComma) :
    operands opposite false segment ≠ [] := by
  obtain ⟨first, others, hsplit, hfirst, hothers⟩ := segments_of_alternates opposite h
  rw [hsplit] at hsegment
  rcases List.mem_cons.1 hsegment with rfl | hsegment
  · exact hfirst rfl false
  · exact hothers segment hsegment

end Piece

/-! ## Trees of segments -/

namespace FilterTree

/-- The opposite of a tree: a group with the other sign, and a filter in a negated group of its
own. -/
def opposite : FilterTree → FilterTree
  | .group junction negated children => .group junction (!negated) children
  | .leaf f => .group .and true [.leaf f]

theorem negate_eq_opposite (t : FilterTree) : t.negate = t.opposite := by
  cases t <;> rfl

/-- One tree for several: a single one stands for itself. -/
def joined (junction : Junction) : List FilterTree → FilterTree
  | [t] => t
  | trees => .group junction false trees

/-- The tree for a segment whose operands are trees. -/
def ofSegment (segment : List (Piece FilterTree)) : FilterTree :=
  joined (Piece.junction .and segment) (Piece.operands opposite false segment)

/-- The trees of a list, if `pieces` are what follows in it.  Some segments are ended, and of the
next one `operands` have been read, joined by `word`; `odd` says whether the negations behind
them are odd in number. -/
def continued (ended operands : List FilterTree) (word : Junction) (odd : Bool)
    (pieces : List (Piece FilterTree)) : List FilterTree :=
  match pieces.splitOnP Piece.isComma with
  | [] => []
  | segment :: others =>
    ended ++ joined (Piece.junction word segment)
      (operands ++ Piece.operands opposite odd segment) :: others.map ofSegment

section Continued

variable {ended operands : List FilterTree} {word : Junction} {odd : Bool}

theorem continued_nil :
    continued ended operands word odd [] = ended ++ [joined word operands] := by
  simp [continued, Piece.operands, Piece.junction]

theorem continued_operand (tree : FilterTree) (rest : List (Piece FilterTree)) :
    continued ended operands word odd (.operand tree :: rest) =
      continued ended (operands ++ [if odd then tree.opposite else tree]) word false rest := by
  have hcomma : (Piece.operand tree).isComma = false := rfl
  obtain ⟨segment, others, hsplit, hcons⟩ := Piece.splitOnP_isComma_cons hcomma rest
  simp [continued, hsplit, hcons, Piece.operands, Piece.junction, Piece.joinsBy?]

theorem continued_separator {sep : Separator} (hsep : sep ≠ .comma)
    (rest : List (Piece FilterTree)) :
    continued ended operands word odd (.separator sep :: rest) =
      continued ended operands (sep.junction?.getD word) (odd != sep.negates) rest := by
  have hcomma : (Piece.separator sep : Piece FilterTree).isComma = false := by
    cases sep <;> first | rfl | exact absurd rfl hsep
  obtain ⟨segment, others, hsplit, hcons⟩ := Piece.splitOnP_isComma_cons hcomma rest
  simp [continued, hsplit, hcons, Piece.operands, Piece.junction, Piece.joinsBy?]

theorem continued_start (rest : List (Piece FilterTree)) :
    continued ended [] .and false rest =
      ended ++ (rest.splitOnP Piece.isComma).map ofSegment := by
  obtain ⟨segment, others, hsplit⟩ :=
    List.exists_cons_of_ne_nil (List.splitOnP_ne_nil Piece.isComma rest)
  simp [continued, hsplit, ofSegment]

theorem continued_comma (rest : List (Piece FilterTree)) :
    continued ended operands word odd (.separator .comma :: rest) =
      continued (ended ++ [joined word operands]) [] .and false rest := by
  rw [continued_start, continued, Piece.splitOnP_isComma_comma]
  simp [Piece.operands, Piece.junction]

end Continued

end FilterTree

/-! ## Steps of the reader -/

namespace Ingest

open FilterTree (joined ofSegment continued)

/-- Reads one piece. -/
def read (s : Ingest) : Piece FilterTree → Except BlockFault Ingest
  | .separator sep => s.separator sep
  | .operand tree => s.operand tree

/-- Reads pieces one after the other. -/
def run (s : Ingest) : List (Piece FilterTree) → Except BlockFault Ingest
  | [] => .ok s
  | piece :: rest => do
    let s ← s.read piece
    run s rest

/-- The state behind some segments, with `operands` read of the next one and joined by a word;
`due` says whether one more has to come.  A single operand is still a tree of the list; once a
word has joined it, it is the first child of a group. -/
inductive Stands (ended : List FilterTree) :
    Bool → List FilterTree → Junction → Ingest → Prop where
  | start {sep : Separator} {negating started : Bool} :
      Stands ended true [] .and ⟨ended, none, some sep, false, negating, started⟩
  | operand {t : FilterTree} :
      Stands ended false [t] .and ⟨ended ++ [t], none, none, false, false, true⟩
  | joining {t : FilterTree} {more : List FilterTree} {word : Junction} {sep : Separator}
      {negating : Bool} :
      Stands ended true (t :: more) word
        ⟨ended, some ⟨t :: more, word, false⟩, some sep, true, negating, true⟩
  | joined {t u : FilterTree} {more : List FilterTree} {word : Junction} :
      Stands ended false (t :: u :: more) word
        ⟨ended, some ⟨t :: u :: more, word, false⟩, none, false, false, true⟩

section Steps

variable {s : Ingest} {ended operands : List FilterTree} {word : Junction} {due : Bool}

/-- A separator waits where an operand is due. -/
theorem Stands.pending (h : Stands ended true operands word s) :
    ∃ sep, s.pending = some sep := by
  cases h <;> exact ⟨_, rfl⟩

theorem Stands.settled (h : Stands ended false operands word s) :
    s.pending = none ∧ s.negating = false ∧ s.started = true := by
  cases h <;> exact ⟨rfl, rfl, rfl⟩

/-- Where an operand is due, one is read. -/
theorem read_operand (h : Stands ended true operands word s) (tree : FilterTree) :
    ∃ s', s.read (.operand tree) = .ok s' ∧ s'.negating = false ∧
      Stands ended false (operands ++ [if s.negating then tree.opposite else tree]) word s' := by
  rw [← FilterTree.negate_eq_opposite]
  cases h with
  | start =>
    refine ⟨_, by rw [read, Ingest.operand, if_neg (by simp)], rfl, ?_⟩
    exact .operand
  | @joining t more =>
    refine ⟨_, by rw [read, Ingest.operand, if_neg (by simp)], rfl, ?_⟩
    cases more with
    | nil => exact .joined
    | cons u more => exact .joined

/-- Where an operand is due, a `NOT` is read. -/
theorem read_not (h : Stands ended true operands word s) :
    ∃ s', s.read (.separator .not) = .ok s' ∧ s'.negating = !s.negating ∧
      Stands ended true operands word s' := by
  obtain ⟨sep, hpending⟩ := h.pending
  refine ⟨{ s with negating := !s.negating, pending := some .not }, ?_, rfl, ?_⟩
  · simp [read, separator, requireFree, effect, negation, hpending, bind, Except.bind, pure,
      Except.pure]
  · cases h with
    | start => exact .start
    | joining => exact .joining

/-- Behind an operand the group in progress is closed for the tree of the segment. -/
theorem trees_close (h : Stands ended false operands word s) :
    s.close.trees = ended ++ [joined word operands] := by
  cases h <;> rfl

/-- Behind an operand a comma ends the segment. -/
theorem read_comma (h : Stands ended false operands word s) :
    ∃ s', s.read (.separator .comma) = .ok s' ∧ s'.negating = false ∧
      Stands (ended ++ [joined word operands]) true [] .and s' := by
  cases h <;> exact ⟨_, rfl, rfl, .start⟩

/-- The word of the specification is the one that the reader joins by. -/
theorem effect_of_junction? {sep : Separator} {next : Junction} (h : sep.junction? = some next) :
    s.effect sep = s.join sep next sep.negates := by
  cases sep with
  | comma => simp [Separator.junction?] at h
  | not => simp [Separator.junction?] at h
  | _ =>
    obtain rfl := Option.some.inj h
    rfl

/-- Behind an operand there is always a tree to go on with. -/
theorem join_of_stands (h : Stands ended false operands word s) (sep : Separator)
    (next : Junction) (negating : Bool) :
    ∃ s', s.join sep next negating = .ok s' ∧ s'.negating = negating ∧
      Stands ended true operands next { s' with pending := some sep } := by
  cases h with
  | @operand t =>
    have hjoin : join ⟨ended ++ [t], none, none, false, false, true⟩ sep next negating =
        .ok ⟨ended, some ⟨[t], next, false⟩, none, true, negating, true⟩ := by
      simp [join, requireLeft, bind, Except.bind, pure, Except.pure]
    exact ⟨_, hjoin, rfl, .joining⟩
  | joined => exact ⟨_, rfl, rfl, .joining⟩

/-- Behind an operand a word goes on with the segment. -/
theorem read_joining (h : Stands ended false operands word s) {sep : Separator} {next : Junction}
    (hnext : sep.junction? = some next) :
    ∃ s', s.read (.separator sep) = .ok s' ∧ s'.negating = sep.negates ∧
      Stands ended true operands next s' := by
  obtain ⟨s', hjoin, hnegating, hstands⟩ := join_of_stands h sep next sep.negates
  refine ⟨{ s' with pending := some sep }, ?_, hnegating, hstands⟩
  rw [read, separator, requireFree, h.settled.1, effect_of_junction? hnext, hjoin]
  rfl

/-- A piece that fits is read, and what has been read goes on to stand for the same trees. -/
theorem read_of_fits (h : Stands ended due operands word s) {piece : Piece FilterTree}
    (hfits : piece.Fits due) :
    ∃ s' ended' operands' word', s.read piece = .ok s' ∧
      Stands ended' piece.isSeparator operands' word' s' ∧
      ∀ rest, continued ended' operands' word' s'.negating rest =
        continued ended operands word s.negating (piece :: rest) := by
  cases piece with
  | operand tree =>
    obtain rfl : due = true := hfits
    obtain ⟨s', hread, hnegating, hstands⟩ := read_operand h tree
    refine ⟨s', _, _, _, hread, hstands, fun rest => ?_⟩
    rw [FilterTree.continued_operand, hnegating]
  | separator sep =>
    by_cases hnot : sep = .not
    · subst hnot
      obtain rfl : due = true := hfits.2 rfl
      obtain ⟨s', hread, hnegating, hstands⟩ := read_not h
      refine ⟨s', _, _, _, hread, hstands, fun rest => ?_⟩
      rw [FilterTree.continued_separator (by simp), hnegating]
      simp [Separator.junction?, Separator.negates]
    · obtain rfl : due = false := by simpa [hnot, Piece.Fits] using hfits
      cases hnext : sep.junction? with
      | none =>
        obtain rfl : sep = .comma := by cases sep <;> simp [Separator.junction?] at hnext hnot ⊢
        obtain ⟨s', hread, hnegating, hstands⟩ := read_comma h
        refine ⟨s', _, _, _, hread, hstands, fun rest => ?_⟩
        rw [FilterTree.continued_comma, hnegating]
      | some next =>
        have hcomma : sep ≠ .comma := by
          rintro rfl
          simp [Separator.junction?] at hnext
        obtain ⟨s', hread, hnegating, hstands⟩ := read_joining h hnext
        refine ⟨s', _, _, _, hread, hstands, fun rest => ?_⟩
        rw [FilterTree.continued_separator hcomma, hnegating, h.settled.2.1, hnext]
        simp

/-- A piece that does not fit is refused. -/
theorem read_of_not_fits (h : Stands ended due operands word s) {piece : Piece FilterTree}
    (hfits : ¬ piece.Fits due) : ∃ fault, s.read piece = .error fault := by
  cases piece with
  | operand tree =>
    obtain rfl : due = false := by simpa [Piece.Fits] using hfits
    obtain ⟨hpending, -, hstarted⟩ := h.settled
    exact ⟨.unseparated, by simp [read, Ingest.operand, hstarted, hpending]⟩
  | separator sep =>
    by_cases hnot : sep = .not
    · subst hnot
      obtain rfl : due = false := by simpa [Piece.Fits] using hfits
      obtain ⟨hpending, -, hstarted⟩ := h.settled
      refine ⟨.misplacedNot, ?_⟩
      simp [read, separator, requireFree, effect, negation, hstarted, hpending, bind, Except.bind]
    · obtain rfl : due = true := by simpa [hnot, Piece.Fits] using hfits
      obtain ⟨previous, hpending⟩ := h.pending
      refine ⟨.noRightOperand previous, ?_⟩
      simp [read, separator, requireFree, hpending, hnot, bind, Except.bind]

end Steps

/-! ## Runs of the reader -/

/-- A run to the end: what is accepted, and which trees it gives. -/
theorem run_eq_ok_iff {pieces : List (Piece FilterTree)} {trees : List FilterTree} :
    ∀ {s : Ingest} {ended operands : List FilterTree} {word : Junction} {due : Bool},
      Stands ended due operands word s →
      ((∃ s', s.run pieces = .ok s' ∧ s'.finish = .ok trees) ↔
        Piece.Alternates due pieces ∧
          trees = continued ended operands word s.negating pieces) := by
  induction pieces with
  | nil =>
    intro s ended operands word due h
    simp only [run, Except.ok.injEq, exists_eq_left', Piece.Alternates, finish]
    cases due with
    | true =>
      obtain ⟨sep, hpending⟩ := h.pending
      simp [hpending]
    | false => simp [h.settled.1, trees_close h, FilterTree.continued_nil, eq_comm]
  | cons piece rest ih =>
    intro s ended operands word due h
    rw [Piece.Alternates]
    by_cases hfits : piece.Fits due
    · obtain ⟨s', _, _, _, hread, hstands, htrees⟩ := read_of_fits h hfits
      simp only [run, hread, bind, Except.bind, hfits, true_and, ih hstands, htrees]
    · obtain ⟨fault, hread⟩ := read_of_not_fits h hfits
      simp [run, hread, bind, Except.bind, hfits]

/-- At the start an operand is due, though no separator waits for it. -/
theorem read_start {piece : Piece FilterTree} (hfits : piece.Fits true) :
    read {} piece = read { pending := some .not } piece := by
  cases piece with
  | operand tree => rfl
  | separator sep =>
    obtain rfl : sep = .not := hfits.1 rfl
    rfl

theorem read_start_of_not_fits {piece : Piece FilterTree} (hfits : ¬ piece.Fits true) :
    ∃ fault, read {} piece = .error fault := by
  cases piece with
  | operand tree => exact absurd rfl hfits
  | separator sep =>
    have hsep : sep ≠ .not := by simpa [Piece.Fits] using hfits
    refine ⟨.noLeftOperand sep, ?_⟩
    cases sep <;> first | rfl | exact absurd rfl hsep

/-- A run from the start: nothing is read, or pieces that alternate, a tree for each
segment. -/
theorem run_start_eq_ok_iff {pieces : List (Piece FilterTree)} {trees : List FilterTree} :
    (∃ s, run {} pieces = .ok s ∧ s.finish = .ok trees) ↔
      (pieces = [] ∧ trees = []) ∨
        (Piece.Alternates true pieces ∧
          trees = (pieces.splitOnP Piece.isComma).map ofSegment) := by
  cases pieces with
  | nil => simp [run, finish, close, Piece.Alternates, eq_comm]
  | cons piece rest =>
    by_cases hfits : piece.Fits true
    · have hrun : run {} (piece :: rest) = run { pending := some .not } (piece :: rest) := by
        rw [run, run, read_start hfits]
      have hstart : Stands [] true [] .and { pending := some .not } := .start
      rw [hrun, run_eq_ok_iff hstart, FilterTree.continued_start]
      simp
    · obtain ⟨fault, hread⟩ := read_start_of_not_fits hfits
      simp [run, hread, bind, Except.bind, Piece.Alternates, hfits]

end Ingest

end MetricQuery
