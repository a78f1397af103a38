import Presence.Extraction
import Presence.Proofs.Block.Naming
import Presence.Proofs.Condition.Budget
import Presence.Proofs.Source.LineEnding
import Presence.Proofs.Text.Utf8

/-!
Ways into extraction. A text has one outcome, whether it is passed along, comes from standard input
or lies in a file, and whichever way its lines end. Only standard input is one call further from the
conditions, which one of them may miss.
-/
namespace Presence

open Text

def SourceBlocks.retag (path : String) (s : SourceBlocks) : SourceBlocks :=
  ⟨path, s.blocks.map (Block.mapFiles fun _ => path)⟩

/-- The error under another name of the file. What ends a whole run has no file to it. -/
def ExtractionError.retag (path : String) : ExtractionError → ExtractionError
  | .reported d => .reported { d with file := path }
  | .aborted a => .aborted a

namespace Extraction

def retag (path : String) :
    Except ExtractionError SourceBlocks → Except ExtractionError SourceBlocks
  | .ok s => .ok (s.retag path)
  | .error e => .error (e.retag path)

variable {o : Context} {path : String}

theorem outcome_ofRead (c c' : Option LogChannel) (r : Except ReadError (List Block)) :
    (ofRead c path r).outcome = (ofRead c' path r).outcome := by
  rcases r with (e | e) | blocks <;> rfl

theorem outcome_ofRead_retag (c : Option LogChannel) (path' : String)
    (r : Except ReadError (List Block)) :
    (ofRead c path' ((Transfer.files fun _ => path').outcome
        (List.map (Block.mapFiles fun _ => path')) r)).outcome =
      retag path' (ofRead c path r).outcome := by
  rcases r with (⟨⟨p, line, file⟩⟩ | e) | blocks
  · cases p <;> rfl
  · rfl
  · rfl

/-- The outcome for a text depends on what its lines hold. -/
theorem outcome_ofText_congr (c c' : Option LogChannel) {s t : List Char}
    (h : lineContents s = lineContents t) :
    (ofText o c path s).outcome = (ofText o c' path t).outcome := by
  have hread : readBlocks o path (splitLines s) = readBlocks o path (splitLines t) := by
    rw [Builder.readBlocks_eq_conclude, Builder.readBlocks_eq_conclude, logicalLines_congr h]
  unfold ofText ofLines
  rw [hread]
  exact outcome_ofRead c c' _

theorem outcome_ofText_retag (c : Option LogChannel) (path' : String) (s : List Char) :
    (ofText o c path' s).outcome = retag path' (ofText o c path s).outcome := by
  unfold ofText ofLines
  rw [readBlocks_rename o (fun _ => path') path (splitLines s)]
  exact outcome_ofRead_retag c path' _

/-- In bytes that are not cut short there is just the text. -/
theorem ofBytes_encode (c : Option LogChannel) (source : String) (s : List Char) :
    ofBytes o c path source (Utf8.encode s) = ofText o c path (unifyNewlines s) := by
  unfold ofBytes
  rw [Utf8.decode_encode]

theorem ofStdin_encode (c : Option LogChannel) (s : List Char) :
    ofStdin o c (.bytes (Utf8.encode s)) = ofText o.below c stdinName (unifyNewlines s) := by
  unfold ofStdin
  simp only [Utf8.decode_encode]

theorem outcome_ofFile {tree : Option String} {contents : Path → Except OpenError (List UInt8)}
    {target : String} {bytes : List UInt8} (c : Option LogChannel)
    (hname : '\x00' ∉ (resolve tree target).text.toList)
    (hcontents : contents (resolve tree target) = .ok bytes) :
    (ofFile o c tree contents target).outcome =
      (ofBytes o c target (resolve tree target).text bytes).outcome := by
  have hnul : (resolve tree target).text.toList.contains '\x00' = false := by
    rw [List.contains_eq_mem]
    exact decide_eq_false hname
  unfold ofFile
  simp only [hnul, hcontents]
  rfl

/-- No condition that the text puts to the test is too deep. -/
def Shallow (o : Context) (path : String) (s : List Char) : Prop :=
  ∀ l e, TestedAt o path (splitLines s) l e → formulaOf o e ≠ .error .tooDeep

/-- One call less makes no difference to a text that is not too deep with it. -/
theorem ofText_below {s : List Char} (h : Shallow o.below path s) (c : Option LogChannel) :
    ofText o.below c path s = ofText o c path s := by
  have hread : readBlocks o.below path (splitLines s) = readBlocks o path (splitLines s) := by
    have hpseudo : o.below.pseudoBlock = o.pseudoBlock := rfl
    have hoptions : o.toOptions = o.below.toOptions := rfl
    apply readBlocks_congr hpseudo
    intro l e he
    exact (condition_of_calls_le hoptions o.budget.calls_below_le (h l e he)).symm
  unfold ofText ofLines
  rw [hread]

/-- The ways in agree. Let each carriage return of a text have its line feed. Then the outcome, be
it blocks, a report or what ends a whole run, stays as it is when every line is made to end in a
carriage return and a line feed. Apart from the name of the file it is the same again when the bytes
of the text lie in a file that can be opened. From standard input, as it is or as bytes, the text
has the outcome that it would have with one call less, and that is the same unless one of its
conditions is then too deep. -/
theorem outcomes_agree (o : Context) (c c' : Option LogChannel) (path : String) {s : List Char}
    (h : ReturnsPaired s) :
    (ofText o c' path (insertReturns s)).outcome = (ofText o c path s).outcome ∧
    (∀ (tree : Option String) (contents : Path → Except OpenError (List UInt8)) (target : String),
      '\x00' ∉ (resolve tree target).text.toList →
      contents (resolve tree target) = .ok (Utf8.encode s) →
      (ofFile o c' tree contents target).outcome = retag target (ofText o c path s).outcome) ∧
    (ofStdin o c' (.text s)).outcome = retag stdinName (ofText o.below c path s).outcome ∧
    (ofStdin o c' (.bytes (Utf8.encode s))).outcome =
      retag stdinName (ofText o.below c path s).outcome ∧
    (Shallow o.below path s →
      (ofText o.below c path s).outcome = (ofText o c path s).outcome) := by
  have hunified (o : Context) (path' : String) :
      (ofText o c' path' (unifyNewlines s)).outcome =
        retag path' (ofText o c path s).outcome := by
    rw [outcome_ofText_congr c' c (lineContents_unifyNewlines h)]
    exact outcome_ofText_retag c path' s
  refine ⟨?_, ?_, ?_, ?_, ?_⟩
  · exact outcome_ofText_congr c' c (lineContents_insertReturns s)
  · intro tree contents target hname hcontents
    rw [outcome_ofFile c' hname hcontents, ofBytes_encode]
    exact hunified o target
  · show (ofText o.below c' stdinName s).outcome = _
    rw [outcome_ofText_congr c' c rfl]
    exact outcome_ofText_retag c stdinName s
  · rw [ofStdin_encode]
    exact hunified o.below stdinName
  · intro hshallow
    rw [ofText_below hshallow]

/-- A condition that is carried on over lines with ends of both kinds. -/
def mixedLineEnds : List Char :=
  "#if defined(A) \\\r\n  && defined(B)\nint x;\r\n#endif\n".toList

theorem outcomes_agree_on_mixed_line_ends :
    ReturnsPaired mixedLineEnds ∧ insertReturns mixedLineEnds ≠ mixedLineEnds ∧
    Shallow (Context.below {}) "a.c" mixedLineEnds ∧
    (ofText {} none "a.c" (insertReturns mixedLineEnds)).outcome =
      (ofText {} none "a.c" mixedLineEnds).outcome ∧
    (ofFile {} none (some "src") (fun _ => .ok (Utf8.encode mixedLineEnds)) "b.c").outcome =
      retag "b.c" (ofText {} none "a.c" mixedLineEnds).outcome ∧
    (ofStdin {} none (.bytes (Utf8.encode mixedLineEnds))).outcome =
      retag stdinName (ofText {} none "a.c" mixedLineEnds).outcome ∧
    (ofText {} none "a.c" mixedLineEnds).outcome =
      .ok ⟨"a.c", [⟨1, 3, "a.c", .and (.var "A") (.var "B"), .and (.var "A") (.var "B"), []⟩]⟩ := by
  have hpaired : ReturnsPaired mixedLineEnds := by decide
  have hlines : logicalLines (splitLines mixedLineEnds) =
      [⟨1, "#if defined(A)   && defined(B)".toList⟩, ⟨3, "int x;".toList⟩,
        ⟨4, "#endif".toList⟩] := by
    with_unfolding_all rfl
  have hshallow : Shallow (Context.below {}) "a.c" mixedLineEnds := by
    intro l e he hdeep
    obtain ⟨hl, d, hd, rfl, hk⟩ := he.directive
    rw [hlines] at hl
    simp only [List.mem_cons, List.not_mem_nil, or_false] at hl
    rcases hl with rfl | rfl | rfl
    · have hformula : formulaOf (Context.below {}) d.expression =
          .ok (.and (.var "A") (.var "B")) := by
        cases hd
        with_unfolding_all rfl
      cases hformula.symm.trans hdeep
    · cases hd
    · cases hd
      revert hk
      decide
  obtain ⟨hreturns, hfile, -, hstdin, hsame⟩ := outcomes_agree {} none none "a.c" hpaired
  rw [hsame hshallow] at hstdin
  refine ⟨hpaired, by decide, hshallow, hreturns, ?_, hstdin, ?_⟩
  · exact hfile (some "src") _ "b.c" (by decide) rfl
  · with_unfolding_all rfl

/-- Seven pairs of parentheses, which take 112 calls. -/
def deepCondition : List Char :=
  "#if (((((((1)))))))\n#endif\n".toList

set_option maxRecDepth 2000 in
/-- When there are just as many, the text has its blocks when it is passed along, but is reported
when it comes from standard input. -/
theorem outcomes_differ_at_last_call :
    let o : Context := { budget := { calls := 112 } }
    ReturnsPaired deepCondition ∧
    (ofText o none "a.c" deepCondition).outcome =
      .ok ⟨"a.c", [⟨1, 1, "a.c", .const true, .const true, []⟩]⟩ ∧
    (ofFile o none none (fun _ => .ok (Utf8.encode deepCondition)) "a.c").outcome =
      (ofText o none "a.c" deepCondition).outcome ∧
    (ofStdin o none (.text deepCondition)).outcome =
      .error (.reported ⟨"parse", stdinName,
        "Can't parse expression '(((((((1)))))))': Condition nested too deeply", some 1⟩) ∧
    (ofStdin o none (.text deepCondition)).outcome ≠
      retag stdinName (ofText o none "a.c" deepCondition).outcome := by
  intro o
  have htext : (ofText o none "a.c" deepCondition).outcome =
      .ok ⟨"a.c", [⟨1, 1, "a.c", .const true, .const true, []⟩]⟩ := by
    with_unfolding_all rfl
  have hfile : (ofFile o none none (fun _ => .ok (Utf8.encode deepCondition)) "a.c").outcome =
      .ok ⟨"a.c", [⟨1, 1, "a.c", .const true, .const true, []⟩]⟩ := by
    with_unfolding_all rfl
  have hstdin : (ofStdin o none (.text deepCondition)).outcome =
      .error (.reported ⟨"parse", stdinName,
        "Can't parse expression '(((((((1)))))))': Condition nested too deeply", some 1⟩) := by
    with_unfolding_all rfl
  refine ⟨by decide, htext, hfile.trans htext.symm, hstdin, ?_⟩
  rw [hstdin, htext]
  exact nofun

end Extraction
end Presence
