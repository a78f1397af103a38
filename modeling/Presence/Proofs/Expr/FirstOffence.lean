import Presence.Proofs.Expr.Fault
import Presence.Proofs.Expr.Recognition
import Presence.Proofs.Expr.Viability

/-!
Which token is blamed. It is the first one behind which no expression is left: the tokens in front
of it can be finished, and with it they cannot, whatever comes behind.
-/
namespace Presence.Expr

/-- The tokens are read as an expression, if the nesting budget is large enough. -/
def Accepted (tokens : List Token) : Prop :=
  ∃ budget e, ofTokens budget tokens = .ok e

theorem yields_of_ofTokens {n : Nat} {tokens : List Token} {e : Expr}
    (h : ofTokens n tokens = .ok e) (budget : Nat) : Yields (ofTokens budget tokens) e := by
  obtain ⟨⟨e', rest⟩, hread, hrest⟩ := bind_eq_ok_iff.mp h
  obtain ⟨ts, rfl, hts⟩ := readsOnlyWords n hread
  have hstops : Stops (Level.rank .conditional) rest := by
    simp only at hrest
    split at hrest <;> trivial
  exact (readsWords budget hts hstops).bind (.inl hrest)

section Offence

variable {budget : Nat} {tokens : List Token} {g : GrammarError}

/-- Behind an expression, only the end of the text is not an offence. -/
theorem ofTokens_eq_grammar (h : ofTokens budget tokens = .error (.grammar g)) :
    readLevel budget .conditional tokens = .error (.grammar g) ∨
      ∃ e x column rest, readLevel budget .conditional tokens = .ok (e, g.rest) ∧
        g = ⟨.unexpected, ⟨x, column⟩ :: rest⟩ ∧ x ≠ .endOfText := by
  obtain hread | ⟨⟨e, rest⟩, hread, hrest⟩ := bind_eq_error_iff.mp h
  · exact .inl hread
  · right
    simp only at hrest
    cases rest with
    | nil => cases hrest
    | cons t rest =>
      obtain ⟨x, column⟩ := t
      cases x with
      | endOfText => cases hrest
      | identifier | integer | punctuator =>
        cases hrest
        exact ⟨e, _, column, rest, hread, rfl, by simp⟩

theorem breaksOff_of_ofTokens (h : ofTokens budget tokens = .error (.grammar g)) :
    BreaksOff .conditional tokens g.rest := by
  obtain hread | ⟨e, x, column, rest, hread, -, -⟩ := ofTokens_eq_grammar h
  · exact failsViably budget hread
  · obtain ⟨ts, hts, hword⟩ := readsOnlyWords budget hread
    exact ⟨ts, hts, .of_derives hword⟩

/-- The same tokens up to the offence and the same kind of offence lead to the same error. -/
theorem ofTokens_local (h : ofTokens budget tokens = .error (.grammar g)) :
    ∃ ts, tokens = ts ++ g.rest ∧ (∀ t ∈ ts, t.lexeme.Short) ∧
      ∀ ts' rest', lexemes ts' = lexemes ts → nextLexeme rest' = nextLexeme g.rest →
        ofTokens budget (ts' ++ rest') = .error (.grammar ⟨g.problem, rest'⟩) := by
  obtain hread | ⟨e, x, column, rest, hread, rfl, hx⟩ := ofTokens_eq_grammar h
  · obtain ⟨ts, hts, hshort, hlocal⟩ :=
      readsLocally budget .conditional tokens g.rest (by rw [hread]; rfl)
    refine ⟨ts, hts, hshort, fun ts' rest' hts' hrest' => ?_⟩
    rw [ofTokens, hlocal ts' rest' hts' hrest', hread]
    rfl
  · obtain ⟨ts, hts, hshort, hlocal⟩ :=
      readsLocally budget .conditional tokens (⟨x, column⟩ :: rest) (by rw [hread]; rfl)
    refine ⟨ts, hts, hshort, fun ts' rest' hts' hrest' => ?_⟩
    obtain ⟨u, hu⟩ := List.head?_eq_some_iff.mp hrest'
    obtain ⟨column', vs, rfl, -⟩ := lexemes_eq_cons hu
    rw [ofTokens, hlocal ts' _ hts' hrest', hread]
    cases x with
    | endOfText => exact absurd rfl hx
    | identifier | integer | punctuator => rfl

end Offence

theorem not_hasLongInteger_of_short {tokens : List Token} (h : ∀ t ∈ tokens, t.lexeme.Short) :
    ¬ HasLongInteger tokens := by
  rintro ⟨t, ht, s, c, d, hs, hc, hd⟩
  exact h t ht s c d hs hc hd

theorem accepted_of_derives {tokens : List Token} {e : Expr} (hend : EndsText tokens)
    (hshort : ∀ t ∈ tokens, t.lexeme.Short)
    (h : Derives .conditional (lexemes tokens.dropLast) e) : Accepted tokens := by
  obtain hok | ⟨x, hx, hlimit⟩ := yields_ofTokens (Level.need .conditional tokens) hend h
  · exact ⟨_, e, hok⟩
  · cases x with
    | tooDeep =>
      cases refuses_of_ofTokens hx with
      | tooDeep hneed => exact absurd hneed (Nat.lt_irrefl _)
    | digitLimit d =>
      exact absurd (hasLongInteger_of_ofTokens hx) (not_hasLongInteger_of_short hshort)
    | scan | grammar | meaning => exact hlimit.elim

theorem exists_accepted_of_viable {ts : List Token} (hshort : ∀ t ∈ ts, t.lexeme.Short)
    (h : Viable .conditional (lexemes ts)) :
    ∃ us, EndsText (ts ++ us) ∧ Accepted (ts ++ us) := by
  obtain ⟨w, e, hword, hintegers⟩ := h
  let more : List Token := w.map (⟨·, 0⟩)
  have hlexemes : lexemes (ts ++ more) = lexemes ts ++ w := by
    simp [lexemes, more, Function.comp_def]
  have hends : EndsText (ts ++ (more ++ [⟨.endOfText, 0⟩])) := by
    refine ⟨ts ++ more, 0, (List.append_assoc _ _ _).symm, fun t ht hend => ?_⟩
    have hmem : t.lexeme ∈ lexemes (ts ++ more) := List.mem_map_of_mem ht
    rw [hlexemes, hend] at hmem
    exact hword.endOfText_not_mem hmem
  refine ⟨more ++ [⟨.endOfText, 0⟩], hends, accepted_of_derives (e := e) hends (fun t ht => ?_) ?_⟩
  · rcases List.mem_append.mp ht with ht | ht
    · exact hshort t ht
    · rintro s c d hs -
      rcases List.mem_append.mp ht with ht | ht
      · obtain ⟨x, hx, rfl⟩ := List.mem_map.mp ht
        obtain rfl : x = .integer s := hs
        exact absurd hx (hintegers s)
      · obtain rfl := List.mem_singleton.mp ht
        cases hs
  · rw [← List.append_assoc, List.dropLast_concat, hlexemes]
    exact hword

/-- The tokens of a list that begins like another one up to its token `i`. -/
theorem split_of_prefix {tokens us : List Token} {i : Nat} {t : Token}
    (ht : tokens[i]? = some t) (h : lexemes (tokens.take (i + 1)) <+: lexemes us) :
    lexemes (us.take i) = lexemes (tokens.take i) ∧ nextLexeme (us.drop i) = some t.lexeme := by
  obtain ⟨v, hv⟩ := h
  have htake : tokens.take (i + 1) = tokens.take i ++ [t] := by
    rw [List.take_add_one, ht]
    rfl
  have hlength : (tokens.take i).length = i := by
    obtain ⟨hi, -⟩ := List.getElem?_eq_some_iff.mp ht
    exact List.length_take_of_le (by omega)
  rw [htake, lexemes, List.map_append, List.append_assoc] at hv
  obtain ⟨vs, ws, rfl, hvs, hws⟩ := lexemes_eq_append hv.symm
  have hsame := congrArg List.length hvs
  rw [List.length_map, List.length_map, hlength] at hsame
  subst hsame
  rw [List.take_left, List.drop_left]
  exact ⟨hvs, by simp [nextLexeme, hws]⟩

/-- Reading the tokens of a text blames the first one that no expression goes on with. It is one of
the tokens, the ones in front of it begin an expression, and no tokens that begin like these and the
blamed one are accepted. The error is then the same, so that nothing behind the blamed token has
been looked at. Of the end of the text this says that the tokens in front are no expression by
themselves. -/
theorem ofTokens_blames_first {expression : List Char} {tokens : List Token} {budget : Nat}
    {g : GrammarError} (hscan : scan expression = .ok tokens)
    (h : ofTokens budget tokens = .error (.grammar g)) :
    ∃ i t, tokens[i]? = some t ∧ g.token? = some t ∧ g.rest = tokens.drop i ∧
      (∃ us, EndsText (tokens.take i ++ us) ∧ Accepted (tokens.take i ++ us)) ∧
      ∀ us, lexemes (tokens.take (i + 1)) <+: lexemes us →
        ¬ Accepted us ∧ ofTokens budget us = .error (.grammar ⟨g.problem, us.drop i⟩) := by
  obtain ⟨ts, rfl, hshort, hlocal⟩ := ofTokens_local h
  obtain ⟨ts', hts', hviable⟩ := breaksOff_of_ofTokens h
  obtain rfl := List.append_cancel_right hts'
  have hne : g.rest ≠ [] := by
    intro hnil
    obtain ⟨us, column, hus, -⟩ := endsText_of_scan hscan
    obtain ⟨w, e, hword, -⟩ := hviable
    rw [hnil, List.append_nil] at hus
    refine hword.endOfText_not_mem ?_
    simp [hus]
  obtain ⟨t, rest, hrest⟩ := List.exists_cons_of_ne_nil hne
  have ht : (ts ++ g.rest)[ts.length]? = some t := by simp [hrest]
  refine ⟨ts.length, t, ht, by rw [GrammarError.token?, hrest]; rfl, List.drop_left.symm, ?_, ?_⟩
  · rw [List.take_left]
    exact exists_accepted_of_viable hshort hviable
  · intro us hus
    obtain ⟨hbefore, hnext⟩ := split_of_prefix ht hus
    rw [List.take_left] at hbefore
    have hnext' : nextLexeme (us.drop ts.length) = nextLexeme g.rest := by
      rw [hnext, hrest]
      rfl
    have herror := hlocal (us.take ts.length) (us.drop ts.length) hbefore hnext'
    rw [List.take_append_drop] at herror
    refine ⟨?_, herror⟩
    rintro ⟨n, e, hok⟩
    obtain hyield | ⟨x, hyield, hlimit⟩ := yields_of_ofTokens hok budget
    · cases hyield.symm.trans herror
    · obtain rfl := Except.error.inj (hyield.symm.trans herror)
      exact hlimit

/-- A call has one argument, so that the comma is blamed and not the end, where a parenthesis is
missing too. -/
theorem ofTokens_blames_comma :
    let tokens : List Token := [⟨.identifier "f", 1⟩, ⟨.punctuator .leftParen, 2⟩,
      ⟨.identifier "A", 3⟩, ⟨.punctuator .comma, 4⟩, ⟨.identifier "B", 6⟩, ⟨.endOfText, 7⟩]
    let g : GrammarError := ⟨.punctuatorMissing .rightParen, tokens.drop 3⟩
    scan "f(A, B".toList = .ok tokens ∧ ofTokens 1000 tokens = .error (.grammar g) ∧
      ∃ i t, tokens[i]? = some t ∧ g.token? = some t ∧ g.rest = tokens.drop i ∧
        (∃ us, EndsText (tokens.take i ++ us) ∧ Accepted (tokens.take i ++ us)) ∧
        ∀ us, lexemes (tokens.take (i + 1)) <+: lexemes us → ¬ Accepted us ∧
          ofTokens 1000 us = .error (.grammar ⟨g.problem, us.drop i⟩) := by
  intro tokens g
  have hscan : scan "f(A, B".toList = .ok tokens := by with_unfolding_all rfl
  have hread : ofTokens 1000 tokens = .error (.grammar g) := by with_unfolding_all rfl
  exact ⟨hscan, hread, ofTokens_blames_first hscan hread⟩

end Presence.Expr
