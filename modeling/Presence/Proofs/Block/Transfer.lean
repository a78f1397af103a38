import Presence.Proofs.Block.Testing
import Presence.Proofs.Source.Concatenation
import Presence.Proofs.Source.LineNumber

/-!
Runs that keep in step. A change of formulas, lines, file names and blocks that opening and closing
a branch respect takes a run to the run on the changed lines, up to the outcome.
-/
namespace Presence

namespace Formula

/-- A map of formulas that leaves the connectives of conditions and the constants in place. -/
structure KeepsShape (g : Formula → Formula) : Prop where
  const : ∀ b, g (.const b) = .const b
  not : ∀ f, g (.not f) = .not (g f)
  and : ∀ l r, g (.and l r) = .and (g l) (g r)

namespace KeepsShape

variable {g : Formula → Formula}

theorem andAll (hg : KeepsShape g) (f : Formula) (fs : List Formula) :
    g (f.andAll fs) = (g f).andAll (fs.map g) := by
  induction fs generalizing f with
  | nil => rfl
  | cons f' fs ih => rw [andAll_cons, ih, hg.and, List.map_cons, andAll_cons]

theorem noneOf (hg : KeepsShape g) (f : Formula) (fs : List Formula) :
    g (f.noneOf fs) = (g f).noneOf (fs.map g) := by
  have hnots : (fs.map Formula.not).map g = (fs.map g).map Formula.not := by
    rw [List.map_map, List.map_map]
    exact List.map_congr_left fun f' _ => hg.not f'
  rw [Formula.noneOf, hg.andAll, hg.not, hnots, Formula.noneOf]

theorem id : KeepsShape id :=
  ⟨fun _ => rfl, fun _ => rfl, fun _ _ => rfl⟩

end KeepsShape
end Formula

def FormatProblem.renumber (s : Nat → Nat) : FormatProblem → FormatProblem
  | .unclosed opening => .unclosed (s opening)
  | p => p

def FormatError.renumber (s : Nat → Nat) (e : FormatError) : FormatError :=
  ⟨e.problem.renumber s, s e.line, e.file⟩

def ReadError.renumber (s : Nat → Nat) : ReadError → ReadError
  | .format e => .format (e.renumber s)
  | .digitLimit e => .digitLimit e

def ReadError.rename (g : String → String) : ReadError → ReadError
  | .format e => .format { e with file := g e.file }
  | .digitLimit e => .digitLimit e

@[simp] theorem ReadError.renumber_id (e : ReadError) : e.renumber id = e := by
  rcases e with ⟨⟨p, line, file⟩⟩ | e
  · cases p <;> rfl
  · rfl

@[simp] theorem ReadError.rename_id (e : ReadError) : e.rename id = e := by
  cases e <;> rfl

/-- A change of all that a builder holds. -/
structure Transfer where
  formula : Formula → Formula
  line : Nat → Nat
  file : String → String
  block : Block → Block
  branch : OpenBranch → OpenBranch

/-- Branches are opened, filled, continued and closed alike on both sides. -/
structure Transfer.Lawful (t : Transfer) : Prop where
  keepsShape : Formula.KeepsShape t.formula
  opened : ∀ n c p cs,
    t.branch ⟨n, c, p, [], cs⟩ = ⟨t.line n, t.formula c, t.formula p, [], cs.map t.formula⟩
  filled : ∀ (b : OpenBranch) (block : Block),
    t.branch { b with children := b.children ++ [block] } =
      { t.branch b with children := (t.branch b).children ++ [t.block block] }
  first : ∀ b, (t.branch b).first = t.line b.first
  presence : ∀ b, (t.branch b).presence = t.formula b.presence
  earlier : ∀ b, (t.branch b).earlier = b.earlier.map t.formula
  closed : ∀ (b : OpenBranch) (file : String) (n : Nat), 0 < n →
    t.block (b.close file (n - 1)) = (t.branch b).close (t.file file) (t.line n - 1)

def Transfer.error (t : Transfer) (e : ReadError) : ReadError :=
  (e.renumber t.line).rename t.file

def Transfer.outcome {α β : Type} (t : Transfer) (f : α → β) :
    Except ReadError α → Except ReadError β
  | .ok a => .ok (f a)
  | .error e => .error (t.error e)

namespace Builder

/-- The builder on the other side, behind blocks and content that are there before. -/
def transfer (t : Transfer) (before : List Block) (outside : Bool) (b : Builder) : Builder where
  finished := before ++ b.finished.map t.block
  stack := b.stack.map t.branch
  contentOutside := outside || b.contentOutside
  line := t.line b.line

variable {t : Transfer} {before : List Block} {outside : Bool} {b : Builder} {o o' : Context}
  {file : String}

theorem openBranch_transfer (ht : t.Lawful) (c : Formula) (cs : List Formula) :
    (b.transfer t before outside).openBranch (t.formula c) (cs.map t.formula) =
      (b.openBranch c cs).transfer t before outside := by
  cases hs : b.stack with
  | nil => simp [openBranch, transfer, hs, ht.opened]
  | cons branch stack =>
    simp [openBranch, transfer, hs, ht.opened, ht.presence, ht.keepsShape.and]

theorem closeBranch_transfer (ht : t.Lawful) (hb : 0 < b.line) :
    (b.transfer t before outside).closeBranch (t.file file) =
      (b.closeBranch file).transfer t before outside := by
  rcases b with ⟨finished, _ | ⟨branch, _ | ⟨parent, stack⟩⟩, content, line⟩
  · rfl
  · simp [closeBranch, transfer, ht.closed branch file line hb]
  · simp [closeBranch, transfer, ht.filled, ht.closed branch file line hb]

theorem chain_transfer (ht : t.Lawful) (k : Keyword) :
    (b.transfer t before outside).chain (t.file file) k =
      t.outcome (fun cs => (t.formula cs.1, cs.2.map t.formula)) (b.chain file k) := by
  rcases b with ⟨finished, _ | ⟨branch, stack⟩, content, line⟩
  · rfl
  · simp only [chain, transfer, List.map_cons, ht.earlier]
    cases branch.earlier <;> rfl

theorem testedCondition_transfer {e : List Char}
    (h : condition o' e = (condition o e).map t.formula) :
    (b.transfer t before outside).testedCondition o' (t.file file) e =
      t.outcome t.formula (b.testedCondition o file e) := by
  rw [testedCondition, testedCondition, h]
  cases condition o e with
  | ok c => rfl
  | error x => cases x <;> rfl

theorem direct_transfer (ht : t.Lawful) (hb : 0 < b.line) {d : Directive}
    (hopening : d.keyword.opensChain = true →
      condition o' d.expression = (condition o d.expression).map t.formula)
    (helseIf : ∀ cs, d.keyword = .elseIf → b.chain file .elseIf = .ok cs →
      condition o' d.expression = (condition o d.expression).map t.formula) :
    (b.transfer t before outside).direct o' (t.file file) d =
      t.outcome (transfer t before outside) (b.direct o file d) := by
  have hnext (c : Formula) (cs : List Formula) :
      ((b.transfer t before outside).closeBranch (t.file file)).openBranch (t.formula c)
          (cs.map t.formula) =
        ((b.closeBranch file).openBranch c cs).transfer t before outside := by
    rw [closeBranch_transfer ht hb, openBranch_transfer ht]
  cases hk : d.keyword with
  | ifDefined | ifUndefined | ifHolds =>
    have htested : (b.transfer t before outside).testedCondition o' (t.file file) d.expression =
        t.outcome t.formula (b.testedCondition o file d.expression) :=
      testedCondition_transfer (hopening (by rw [hk]; rfl))
    simp only [direct, hk, htested]
    cases b.testedCondition o file d.expression with
    | error x => rfl
    | ok c => exact congrArg Except.ok (openBranch_transfer ht c [c])
  | elseIf =>
    simp only [direct, hk, chain_transfer ht]
    cases hchain : b.chain file .elseIf with
    | error x => rfl
    | ok cs =>
      have htested : (b.transfer t before outside).testedCondition o' (t.file file) d.expression =
          t.outcome t.formula (b.testedCondition o file d.expression) :=
        testedCondition_transfer (helseIf cs hk hchain)
      simp only [bind, Except.bind, Transfer.outcome, htested]
      cases b.testedCondition o file d.expression with
      | error x => rfl
      | ok c =>
        have hopen := hnext (.and (.noneOf cs.1 cs.2) c) (cs.1 :: cs.2 ++ [c])
        rw [ht.keepsShape.and, ht.keepsShape.noneOf, List.map_append] at hopen
        exact congrArg Except.ok hopen
  | otherwise =>
    simp only [direct, hk, chain_transfer ht]
    cases b.chain file .otherwise with
    | error x => rfl
    | ok cs =>
      have hopen := hnext (.noneOf cs.1 cs.2) []
      rw [ht.keepsShape.noneOf] at hopen
      exact congrArg Except.ok hopen
  | endIf =>
    simp only [direct, hk]
    rcases hs : b.stack with _ | ⟨branch, stack⟩
    · simp only [transfer, hs]
      rfl
    · have hstack : (b.transfer t before outside).stack =
          t.branch branch :: stack.map t.branch := by
        simp [transfer, hs]
      simp only [hstack]
      exact congrArg Except.ok (closeBranch_transfer ht hb)

theorem accept_transfer (ht : t.Lawful) {l : LogicalLine} (hl : 0 < l.number)
    (h : ∀ e, b.Tests l e → condition o' e = (condition o e).map t.formula) :
    (b.transfer t before outside).accept o' (t.file file) (l.renumber t.line) =
      ((b.accept o file l).1.transfer t before outside,
        (b.accept o file l).2.map t.error) := by
  have hline : { b.transfer t before outside with line := (l.renumber t.line).number } =
      transfer t before outside { b with line := l.number } := rfl
  have hhandle : handle (transfer t before outside { b with line := l.number }) o' (t.file file)
      (l.renumber t.line) =
        t.outcome (transfer t before outside) (handle { b with line := l.number } o file l) := by
    unfold handle
    have htext : (l.renumber t.line).text = l.text := rfl
    rw [htext]
    cases hd : Directive.ofLine? l.text with
    | some d =>
      apply direct_transfer ht hl
      · intro hk
        exact h _ (.opening hd hk)
      · intro cs hk hchain
        obtain ⟨branch, stack, hs, hearlier⟩ := chain_eq_ok_iff.mp hchain
        exact h _ (.elseIf hd hk hs (by simp [hearlier]))
    | none =>
      simp only [transfer, List.isEmpty_map]
      split
      · rfl
      · simp [Transfer.outcome, transfer]
  simp only [accept, hline, hhandle]
  cases handle { b with line := l.number } o file l <;> rfl

/-- Where the conditions that are tested go over to the other side, the whole run does. -/
theorem acceptAll_transfer (ht : t.Lawful) {lines : List LogicalLine}
    (hlines : ∀ l ∈ lines, 0 < l.number)
    (h : ∀ done l rest b₁ e, lines = done ++ l :: rest →
      b.acceptAll o file done = (b₁, none) → b₁.Tests l e →
        condition o' e = (condition o e).map t.formula) :
    (b.transfer t before outside).acceptAll o' (t.file file) (lines.map (·.renumber t.line)) =
      ((b.acceptAll o file lines).1.transfer t before outside,
        (b.acceptAll o file lines).2.map t.error) := by
  induction lines generalizing b with
  | nil => rfl
  | cons l lines ih =>
    obtain ⟨hl, hlines⟩ := List.forall_mem_cons.mp hlines
    have haccept : (b.transfer t before outside).accept o' (t.file file) (l.renumber t.line) =
        ((b.accept o file l).1.transfer t before outside,
          (b.accept o file l).2.map t.error) :=
      accept_transfer ht hl fun e he => h [] l lines b e rfl rfl he
    simp only [List.map_cons, acceptAll, haccept]
    rcases hb : b.accept o file l with ⟨b₁, _ | x⟩
    · apply ih hlines
      intro done l' rest b₂ e hsplit hb₂ he
      refine h (l :: done) l' rest b₂ e (by rw [hsplit]; rfl) ?_ he
      simp only [acceptAll, hb, hb₂]
    · rfl

/-- What a call makes of the lines it has taken in. -/
def conclude (o : Context) (file : String) :
    Builder × Option ReadError → Except ReadError (List Block)
  | (b, none) => b.result o file
  | (_, some e) => .error e

theorem read_eq_conclude (b : Builder) (o : Context) (file : String) (source : List (List Char)) :
    (b.read o file source).2 = conclude o file (b.acceptAll o file (logicalLines source)) := by
  unfold read
  rcases b.acceptAll o file (logicalLines source) with ⟨b', _ | e⟩ <;> rfl

theorem readBlocks_eq_conclude (o : Context) (file : String) (source : List (List Char)) :
    readBlocks o file source = conclude o file (acceptAll {} o file (logicalLines source)) :=
  read_eq_conclude {} o file source

theorem conclude_transfer (ht : t.Lawful) (ho : o.pseudoBlock = false) (e : Option ReadError) :
    conclude o (t.file file) (b.transfer t before outside, e.map t.error) =
      t.outcome (fun blocks => before ++ blocks.map t.block) (conclude o file (b, e)) := by
  cases e with
  | some e => rfl
  | none =>
    rcases b with ⟨finished, _ | ⟨branch, stack⟩, content, line⟩
    · simp [conclude, result, transfer, ho, Transfer.outcome]
    · simp [conclude, result, transfer, ht.first, Transfer.outcome, Transfer.error,
        ReadError.renumber, ReadError.rename, FormatError.renumber, FormatProblem.renumber]

/-- A block around the whole file may be there too, if it is changed like the line it ends on. -/
theorem conclude_transfer_whole (ht : t.Lawful) (hpseudo : o'.pseudoBlock = o.pseudoBlock)
    (hwhole : ∀ n blocks, t.block (.whole file (n + 1) blocks) =
      .whole (t.file file) (t.line n + 1) (blocks.map t.block)) (e : Option ReadError) :
    conclude o' (t.file file) (b.transfer t [] false, e.map t.error) =
      t.outcome (List.map t.block) (conclude o file (b, e)) := by
  cases e with
  | some e => rfl
  | none =>
    rcases b with ⟨finished, _ | ⟨branch, stack⟩, content, line⟩
    · cases hcontent : content && o.pseudoBlock <;>
        simp [conclude, result, transfer, hpseudo, hcontent, Transfer.outcome, hwhole]
    · simp [conclude, result, transfer, ht.first, Transfer.outcome, Transfer.error,
        ReadError.renumber, ReadError.rename, FormatError.renumber, FormatProblem.renumber]

end Builder

/-- Where each condition that is tested goes over to the other side and lines stay as they are, the
outcome for a file goes over. -/
theorem readBlocks_transfer {t : Transfer} {o o' : Context} {file : String}
    {lines : List (List Char)} (ht : t.Lawful) (hline : ∀ n, t.line n = n)
    (hpseudo : o'.pseudoBlock = o.pseudoBlock)
    (hwhole : ∀ n blocks, t.block (.whole file (n + 1) blocks) =
      .whole (t.file file) (n + 1) (blocks.map t.block))
    (h : ∀ l e, TestedAt o file lines l e → condition o' e = (condition o e).map t.formula) :
    readBlocks o' (t.file file) lines = t.outcome (List.map t.block) (readBlocks o file lines) := by
  have hsame : (logicalLines lines).map (·.renumber t.line) = logicalLines lines := by
    rw [List.map_congr_left (g := id) fun l _ => by simp [LogicalLine.renumber, hline]]
    exact List.map_id _
  have hstart : Builder.transfer t [] false {} = {} := by
    simp [Builder.transfer, hline]
  have hrun : Builder.acceptAll {} o' (t.file file) (logicalLines lines) =
      ((Builder.acceptAll {} o file (logicalLines lines)).1.transfer t [] false,
        (Builder.acceptAll {} o file (logicalLines lines)).2.map t.error) := by
    have hmoved : (Builder.transfer t [] false {}).acceptAll o' (t.file file)
        ((logicalLines lines).map (·.renumber t.line)) =
          ((Builder.acceptAll {} o file (logicalLines lines)).1.transfer t [] false,
            (Builder.acceptAll {} o file (logicalLines lines)).2.map t.error) := by
      apply Builder.acceptAll_transfer ht (logicalLines_numbered lines).2
      intro before l after b e hlines hb he
      exact h l e ⟨before, after, b, hlines, hb, he⟩
    rwa [hsame, hstart] at hmoved
  rw [Builder.readBlocks_eq_conclude, Builder.readBlocks_eq_conclude, hrun]
  apply Builder.conclude_transfer_whole ht hpseudo
  intro n blocks
  rw [hwhole, hline]

end Presence
