import Presence.Proofs.Block.Opening
import Presence.Proofs.Block.Testing
import Presence.Proofs.Condition.Handling
import Presence.Proofs.Condition.NameTest

/-!
Conditionals that test a bare name. Another text in its place is refused, apart from one that closes
the parentheses it is put in.
-/
namespace Presence

open Text

theorem Keyword.opensChain_of_testsName {k : Keyword} (h : k.testsName = true) :
    k.opensChain = true := by
  cases k <;> first | rfl | cases h

theorem Directive.ofLine?_of_testsName {k : Keyword} (hk : k.testsName = true) (r : List Char) :
    Directive.ofLine? (k.chars ++ r) = some ⟨k, r⟩ := by
  cases k <;> first | rfl | cases hk

variable {o : Context} {k : Keyword} {l : LogicalLine} {r : List Char}

/-- `#ifdef` and `#ifndef` test one name. In every state of reading, a line with a single name opens
a branch under the test of the name, and a line with another text fails for its condition, unless a
parenthesis closes behind the first name of the text. In a file that is read such a line has one
block, with the condition that the text makes of the test. -/
theorem bare_name_tested (ho : o.invalid = .fail) (hk : k.testsName = true)
    (hl : l.text = k.chars ++ r) :
    (IsName (trim r) → ∀ (b : Builder) (file : String), b.accept o file l =
      (Builder.openBranch { b with line := l.number } (k.nameFormula (String.ofList (trim r)))
        [k.nameFormula (String.ofList (trim r))], none)) ∧
    (¬ IsName (trim r) → ¬ ClosesEarly (trim r) → ∀ (b : Builder) (file : String), ∃ x,
      b.accept o file l = ({ b with line := l.number },
        some (.format ⟨.invalidCondition (Directive.expression ⟨k, r⟩) x, l.number, file⟩))) ∧
    ∀ (file : String) (source : List (List Char)) (blocks : List Block),
      readBlocks o file source = .ok blocks → l ∈ logicalLines source →
      ∃ forest, (blocks = forest ∨ ∃ last, blocks = [.whole file last forest]) ∧
        ∃ b ∈ Block.preorders forest, b.first = l.number ∧
          (∀ c ∈ Block.preorders forest, c.first = l.number → c = b) ∧
          formulaOf o (Directive.expression ⟨k, r⟩) = .ok b.condition ∧
          (¬ ClosesEarly (trim r) → IsName (trim r) ∧
            b.condition = k.nameFormula (String.ofList (trim r))) := by
  have hopens := Keyword.opensChain_of_testsName hk
  have hd : Directive.ofLine? l.text = some ⟨k, r⟩ := by
    rw [hl, Directive.ofLine?_of_testsName hk]
  have hcondition := condition_of_fail ho (Directive.expression ⟨k, r⟩)
  refine ⟨fun hname b file => ?_, fun hname hclosed b file => ?_,
    fun file source blocks h hmem => ?_⟩
  · obtain ⟨-, hformula⟩ | ⟨hnot, -⟩ := formulaOf_nameTest o hk hname.not_closesEarly
    · rw [Builder.accept_opening hd hopens, Builder.testedCondition, hcondition, hformula]
    · exact absurd hname hnot
  · obtain ⟨hname', -⟩ | ⟨-, x, hx, hrecoverable⟩ := formulaOf_nameTest o hk hclosed
    · exact absurd hname' hname
    · refine ⟨x, ?_⟩
      rw [Builder.accept_opening hd hopens, Builder.testedCondition, hcondition, hx]
      cases x with
      | digitLimit d => cases hrecoverable
      | _ => rfl
  · obtain ⟨forest, hforest, b, hb, hfirst, hunique, hb'⟩ :=
      exists_block_of_opening h hmem hd hopens
    have hformula := hcondition.symm.trans hb'
    refine ⟨forest, hforest, b, hb, hfirst, hunique, hformula, fun hclosed => ?_⟩
    obtain ⟨hname, hname'⟩ | ⟨-, x, hx, -⟩ := formulaOf_nameTest o hk hclosed
    · exact ⟨hname, Except.ok.inj (hformula.symm.trans hname')⟩
    · cases hformula.symm.trans hx

/-- The name stands apart from the keyword, and two names are not one. -/
theorem bare_name_tested_negated :
    let source := ["#ifndef  A ".toList, "#endif".toList]
    let tested : LogicalLine := ⟨1, "#ifndef  A".toList⟩
    let refused : LogicalLine := ⟨1, "#ifdef A B".toList⟩
    let a : Formula := .not (.var "A")
    let block : Block := ⟨1, 1, "a.c", a, a, []⟩
    readBlocks {} "a.c" source = .ok [block] ∧ tested ∈ logicalLines source ∧
      IsName (trim "  A".toList) ∧
      (∀ (b : Builder) (file : String), b.accept {} file tested =
        (Builder.openBranch { b with line := 1 } a [a], none)) ∧
      (∃ forest, ([block] = forest ∨ ∃ last, [block] = [.whole "a.c" last forest]) ∧
        ∃ b ∈ Block.preorders forest, b.first = 1 ∧ b.condition = a) ∧
      ¬ IsName (trim " A B".toList) ∧ ¬ ClosesEarly (trim " A B".toList) ∧
      ∀ (b : Builder) (file : String), ∃ x, b.accept {} file refused = ({ b with line := 1 },
        some (.format ⟨.invalidCondition "defined(A B)".toList x, 1, file⟩)) := by
  intro source tested refused a block
  have hblocks : readBlocks {} "a.c" source = .ok [block] := by
    with_unfolding_all rfl
  have hlines : logicalLines source = [tested, ⟨2, "#endif".toList⟩] := by
    with_unfolding_all rfl
  have hmem : tested ∈ logicalLines source := by simp [hlines]
  have hname : IsName (trim "  A".toList) := ⟨"A", by with_unfolding_all rfl⟩
  have hscan : (scan (trim " A B".toList)).map lexemes =
      .ok [.identifier "A", .identifier "B", .endOfText] := by
    with_unfolding_all rfl
  have hnot : ¬ IsName (trim " A B".toList) := by
    rintro ⟨name, h⟩
    cases hscan.symm.trans h
  have hopen : ¬ ClosesEarly (trim " A B".toList) := by
    rintro ⟨name, w, h⟩
    cases hscan.symm.trans h
  obtain ⟨htested, -, hread⟩ := bare_name_tested (o := {}) (k := .ifUndefined) (l := tested)
    (r := "  A".toList) rfl rfl rfl
  obtain ⟨-, hrefused, -⟩ := bare_name_tested (o := {}) (k := .ifDefined) (l := refused)
    (r := " A B".toList) rfl rfl rfl
  obtain ⟨forest, hforest, b, hb, hfirst, -, -, hcondition⟩ :=
    hread "a.c" source _ hblocks hmem
  exact ⟨hblocks, hmem, hname, htested hname,
    ⟨forest, hforest, b, hb, hfirst, (hcondition hname.not_closesEarly).2⟩, hnot, hopen,
    hrefused hnot hopen⟩

/-- A text that closes the parentheses and opens others adds a test of its own. -/
theorem test_of_two_names :
    let a : Formula := .or (.var "A") (.var "B")
    ¬ IsName (trim " A) || defined(B".toList) ∧
      readBlocks {} "a.c" ["#ifdef A) || defined(B".toList, "#endif".toList] =
        .ok [⟨1, 1, "a.c", a, a, []⟩] := by
  intro a
  have hscan : (scan (trim " A) || defined(B".toList)).map lexemes =
      .ok [.identifier "A", .punctuator .rightParen, .punctuator .or, .identifier "defined",
        .punctuator .leftParen, .identifier "B", .endOfText] := by
    with_unfolding_all rfl
  refine ⟨?_, by with_unfolding_all rfl⟩
  rintro ⟨name, h⟩
  cases hscan.symm.trans h

end Presence
