import Presence.Proofs.Block.Concatenation

/-!
A text read in two calls. The second call goes on where the first was left, so apart from the lines
its outcome is that of the whole text.
-/
namespace Presence

def Block.withoutLines : Block → Block :=
  mapLines fun _ => 0

def ReadError.withoutLines : ReadError → ReadError :=
  renumber fun _ => 0

/-- A conditional is still open at the end of the text. -/
def ReadError.IsUnclosed : ReadError → Prop
  | .format ⟨.unclosed _, _, _⟩ => True
  | _ => False

def Transfer.unnumbered : Transfer :=
  lines fun _ => 0

theorem Transfer.lawful_unnumbered : unnumbered.Lawful :=
  lawful_lines fun _ _ => rfl

theorem Transfer.error_unnumbered : unnumbered.error = ReadError.withoutLines := by
  funext e
  simp [error, unnumbered, lines, ReadError.withoutLines]

namespace Builder

variable {o : Context} {file : String} {b b' : Builder} {e : ReadError}

theorem testedCondition_not_unclosed {expression : List Char}
    (h : b.testedCondition o file expression = .error e) : ¬ e.IsUnclosed := by
  unfold testedCondition at h
  split at h <;> cases h <;> exact id

theorem chain_not_unclosed {k : Keyword} (h : b.chain file k = .error e) : ¬ e.IsUnclosed := by
  unfold chain at h
  split at h
  · cases h
    exact id
  · split at h <;> cases h
    exact id

theorem direct_not_unclosed {d : Directive} (h : b.direct o file d = .error e) :
    ¬ e.IsUnclosed := by
  have htested {k : Formula → Except ReadError Builder} (hk : ∀ c, ∃ b', k c = .ok b')
      (h : b.testedCondition o file d.expression >>= k = .error e) : ¬ e.IsUnclosed := by
    rcases bind_eq_error_iff.mp h with h | ⟨c, -, h⟩
    · exact testedCondition_not_unclosed h
    · obtain ⟨b', hb⟩ := hk c
      rw [hb] at h
      cases h
  unfold direct at h
  split at h
  · exact htested (fun c => ⟨_, rfl⟩) h
  · exact htested (fun c => ⟨_, rfl⟩) h
  · exact htested (fun c => ⟨_, rfl⟩) h
  · rcases bind_eq_error_iff.mp h with h | ⟨cs, -, h⟩
    · exact chain_not_unclosed h
    · exact htested (fun c => ⟨_, rfl⟩) h
  · rcases bind_eq_error_iff.mp h with h | ⟨cs, -, h⟩
    · exact chain_not_unclosed h
    · cases h
  · split at h <;> cases h
    exact id

/-- That a conditional is open shows at the end and at no line. -/
theorem accept_not_unclosed {l : LogicalLine} (h : b.accept o file l = (b', some e)) :
    ¬ e.IsUnclosed := by
  simp only [accept] at h
  split at h
  · cases h
  · next hb =>
    cases h
    unfold handle at hb
    split at hb
    · exact direct_not_unclosed hb
    · split at hb <;> cases hb

/-- A call that at most misses the end of a conditional takes all lines in. -/
theorem acceptAll_of_read {source : List (List Char)}
    (h : ∀ e, (b.read o file source).2 = .error e → e.IsUnclosed) :
    b.acceptAll o file (logicalLines source) = ((b.read o file source).1, none) := by
  rcases read_cases b o file source with
    ⟨b', hacc, hread⟩ | ⟨before, l, after, b₁, b', e, -, -, hl, hread⟩
  · rw [hread]
    exact hacc
  · have hopen : e.IsUnclosed := h e (by rw [hread])
    exact absurd hopen (accept_not_unclosed hl)

/-- Where runs agree apart from the lines, so do their outcomes, with or without a block around the
whole file. -/
theorem outcome_conclude_congr {run run' : Builder × Option ReadError}
    (hb : run.1.transfer .unnumbered [] false = run'.1.transfer .unnumbered [] false)
    (he : run.2.map ReadError.withoutLines = run'.2.map ReadError.withoutLines) :
    Transfer.unnumbered.outcome (List.map Block.withoutLines) (conclude o file run) =
      Transfer.unnumbered.outcome (List.map Block.withoutLines) (conclude o file run') := by
  obtain ⟨⟨finished, stack, content, line⟩, e⟩ := run
  obtain ⟨⟨finished', stack', content', line'⟩, e'⟩ := run'
  simp only [transfer, List.nil_append, Bool.false_or, Builder.mk.injEq] at hb
  obtain ⟨hfinished, hstack, rfl, -⟩ := hb
  have hblocks : finished.map Block.withoutLines = finished'.map Block.withoutLines := hfinished
  cases e with
  | some e =>
    cases e' with
    | none => cases he
    | some e' =>
      have hsame : e.withoutLines = e'.withoutLines := Option.some.inj he
      simp only [conclude, Transfer.outcome, Transfer.error_unnumbered, hsame]
  | none =>
    cases e' with
    | some e' => cases he
    | none =>
      cases stack with
      | nil =>
        obtain rfl : stack' = [] := List.map_eq_nil_iff.mp hstack.symm
        cases hwhole : content && o.pseudoBlock with
        | false => simp [conclude, result, hwhole, Transfer.outcome, hblocks]
        | true =>
          have hbelow : finished.map (Block.mapLines fun _ => 0) =
              finished'.map (Block.mapLines fun _ => 0) := hblocks
          simp [conclude, result, hwhole, Transfer.outcome, Block.whole, Block.withoutLines,
            Block.mapLines_mk, hbelow]
      | cons branch stack =>
        cases stack' with
        | nil => cases hstack
        | cons branch' stack' => rfl

/-- The numbers of the lines that come leave their mark on lines alone. -/
theorem outcome_renumber (b : Builder) (o : Context) (file : String) (k : Nat)
    {ls : List LogicalLine} (hls : ∀ l ∈ ls, 0 < l.number) :
    Transfer.unnumbered.outcome (List.map Block.withoutLines)
        (conclude o file (b.acceptAll o file (ls.map (·.renumber (· + k))))) =
      Transfer.unnumbered.outcome (List.map Block.withoutLines)
        (conclude o file (b.acceptAll o file ls)) := by
  have hrun {lines : List LogicalLine} (hlines : ∀ l ∈ lines, 0 < l.number) :
      (b.transfer .unnumbered [] false).acceptAll o file (lines.map (·.renumber fun _ => 0)) =
        ((b.acceptAll o file lines).1.transfer .unnumbered [] false,
          (b.acceptAll o file lines).2.map ReadError.withoutLines) := by
    rw [← Transfer.error_unnumbered]
    exact acceptAll_transfer Transfer.lawful_unnumbered hlines fun _ _ _ _ e _ _ _ =>
      (congrFun Except.map_id (condition o e)).symm
  have hlater : ∀ l ∈ ls.map (·.renumber (· + k)), 0 < l.number := by
    intro l hl
    obtain ⟨l', hl', rfl⟩ := List.mem_map.mp hl
    exact Nat.add_pos_left (hls l' hl') k
  have hsame : (ls.map (·.renumber (· + k))).map (·.renumber fun _ => 0) =
      ls.map (·.renumber fun _ => 0) := by
    rw [List.map_map]
    rfl
  have hboth := hrun hlater
  rw [hsame, hrun hls] at hboth
  obtain ⟨hb, he⟩ := Prod.mk.inj hboth
  exact outcome_conclude_congr hb.symm he.symm

end Builder

/-- A text may be read in two calls. If the first call fails for an open conditional at most, and
leaves neither a comment nor a directive open, then the second has blocks just when the whole text
has some, which are the same but for their lines; and if both fail, they do so for the same problem,
again but for its lines. -/
theorem read_resumed {o : Context} {file : String} {xs : List (List Char)}
    (hfirst : ∀ e, (Builder.read {} o file xs).2 = .error e → e.IsUnclosed)
    (hsettled : LineReader.Settled xs) (ys : List (List Char)) :
    let second := ((Builder.read {} o file xs).1.read o file ys).2
    let whole := readBlocks o file (xs ++ ys)
    ((∃ blocks, second = .ok blocks) ↔ ∃ blocks, whole = .ok blocks) ∧
    (∀ blocks blocks', second = .ok blocks → whole = .ok blocks' →
      blocks.map Block.withoutLines = blocks'.map Block.withoutLines) ∧
    ∀ e e', second = .error e → whole = .error e' → e.withoutLines = e'.withoutLines := by
  intro second whole
  have hrun := Builder.acceptAll_of_read hfirst
  have hwhole : whole = Builder.conclude o file ((Builder.read {} o file xs).1.acceptAll o file
      ((logicalLines ys).map (·.renumber (· + xs.length)))) := by
    rw [← Builder.acceptAll_append_of_ok hrun, ← logicalLines_append hsettled]
    exact Builder.readBlocks_eq_conclude o file (xs ++ ys)
  have hsame : Transfer.unnumbered.outcome (List.map Block.withoutLines) whole =
      Transfer.unnumbered.outcome (List.map Block.withoutLines) second := by
    rw [hwhole, Builder.outcome_renumber _ o file _ (logicalLines_numbered ys).2,
      ← Builder.read_eq_conclude]
  rw [Transfer.outcome.eq_def, Transfer.outcome.eq_def, Transfer.error_unnumbered] at hsame
  cases hs : second with
  | ok blocks =>
    cases hw : whole with
    | ok blocks' =>
      simp only [hs, hw, Except.ok.injEq] at hsame
      refine ⟨by simp, ?_, by simp⟩
      rintro _ _ ⟨⟩ ⟨⟩
      exact hsame.symm
    | error e' => simp [hs, hw] at hsame
  | error e =>
    cases hw : whole with
    | ok blocks' => simp [hs, hw] at hsame
    | error e' =>
      simp only [hs, hw, Except.error.injEq] at hsame
      refine ⟨by simp, by simp, ?_⟩
      rintro _ _ ⟨⟩ ⟨⟩
      exact hsame.symm

/-- Cut inside two conditionals, the inner of which goes on with another branch. -/
theorem read_resumed_inside_branch :
    let xs := ["int x;".toList, "#ifdef A".toList, "#ifdef B /* one".toList, "two */".toList]
    let ys := ["#else".toList, "#endif".toList, "#endif".toList]
    let a : Formula := .var "A"
    let b : Formula := .var "B"
    let tree (last first' last' outer file : Nat) : List Block :=
      [.whole "a.c" file [⟨2, outer, "a.c", a, a, [⟨3, last, "a.c", b, .and a b, []⟩,
        ⟨first', last', "a.c", .not b, .and a (.not b), []⟩]⟩]]
    (∀ e, (Builder.read {} {} "a.c" xs).2 = .error e → e.IsUnclosed) ∧
      LineReader.Settled xs ∧
      ((Builder.read {} {} "a.c" xs).1.read {} "a.c" ys).2 = .ok (tree 0 1 1 2 4) ∧
      readBlocks {} "a.c" (xs ++ ys) = .ok (tree 4 5 5 6 8) ∧
      (tree 0 1 1 2 4).map Block.withoutLines = (tree 4 5 5 6 8).map Block.withoutLines := by
  intro xs ys a b tree
  have hopen : (Builder.read {} {} "a.c" xs).2 = .error (.format ⟨.unclosed 3, 3, "a.c"⟩) := by
    with_unfolding_all rfl
  have hfirst : ∀ e, (Builder.read {} {} "a.c" xs).2 = .error e → e.IsUnclosed := by
    intro e he
    cases hopen.symm.trans he
    trivial
  have hsettled : LineReader.Settled xs := by
    with_unfolding_all exact ⟨rfl, rfl⟩
  have hsecond : ((Builder.read {} {} "a.c" xs).1.read {} "a.c" ys).2 = .ok (tree 0 1 1 2 4) := by
    with_unfolding_all rfl
  have hwhole : readBlocks {} "a.c" (xs ++ ys) = .ok (tree 4 5 5 6 8) := by
    with_unfolding_all rfl
  have hsame := (read_resumed hfirst hsettled ys).2.1 _ _ hsecond hwhole
  exact ⟨hfirst, hsettled, hsecond, hwhole, hsame⟩

end Presence
