import Presence.Proofs.Expr.Completeness
import Presence.Proofs.Token.Scan

/-! The tokens of a text are read as its tree if it has one. -/
namespace Presence.Expr

/-- A word that is read up to an end is everything before the only one. -/
theorem eq_of_append_eq {ts us rest : List Token} {column : Nat}
    (h : us ++ rest = ts ++ [⟨.endOfText, column⟩]) (hts : ∀ t ∈ ts, t.lexeme ≠ .endOfText)
    (hus : .endOfText ∉ lexemes us) (hrest : ∀ t ∈ rest.head?, t.lexeme = .endOfText) :
    us = ts := by
  obtain ⟨vs, rfl, hvs⟩ | ⟨vs, rfl, hvs⟩ := List.append_eq_append_iff.mp h
  · cases vs with
    | nil => simp
    | cons v vs => exact absurd (hrest v (by simp [hvs])) (hts v (by simp))
  · cases vs with
    | nil => simp
    | cons v vs =>
      obtain rfl : ⟨.endOfText, column⟩ = v := (List.cons.inj hvs).1
      simp at hus

theorem derives_of_ofTokens {budget : Nat} {tokens : List Token} {e : Expr}
    (hend : EndsText tokens) (h : ofTokens budget tokens = .ok e) :
    Derives .conditional (lexemes tokens.dropLast) e := by
  obtain ⟨ts, column, rfl, hts⟩ := hend
  obtain ⟨⟨e', rest⟩, hread, hrest⟩ := bind_eq_ok_iff.mp h
  obtain ⟨us, hus, hd⟩ := readsOnlyWords budget hread
  rw [List.dropLast_concat]
  have hhead : e' = e ∧ ∀ t ∈ rest.head?, t.lexeme = .endOfText := by
    simp only at hrest
    split at hrest <;> cases hrest <;> simp
  obtain ⟨rfl, hlast⟩ := hhead
  rwa [← eq_of_append_eq hus.symm hts hd.endOfText_not_mem hlast]

theorem yields_ofTokens {tokens : List Token} {e : Expr} (budget : Nat) (hend : EndsText tokens)
    (h : Derives .conditional (lexemes tokens.dropLast) e) : Yields (ofTokens budget tokens) e := by
  obtain ⟨ts, column, rfl, -⟩ := hend
  rw [List.dropLast_concat] at h
  have hrest : Stops (Level.rank .conditional) [⟨.endOfText, column⟩] := trivial
  exact (readsWords budget h hrest).bind .ok

theorem refuses_of_ofTokens {budget : Nat} {tokens : List Token} {x : ConditionError}
    (h : ofTokens budget tokens = .error x) : Refuses budget .conditional tokens x := by
  obtain hread | ⟨⟨e, rest⟩, -, hrest⟩ := bind_eq_error_iff.mp h
  · exact failsDuly budget hread
  · simp only at hrest
    split at hrest <;> cases hrest
    exact .grammar _

/-- The tokens of a text are read as a tree just when the grammar derives it from them, unless a
limit is met; no other tree is derived. A text with no tree breaks the grammar, and the budget that
is sure to be enough grows with the text. -/
theorem ofTokens_eq_ok_iff_derives {expression : List Char} {tokens : List Token} {budget : Nat}
    (hscan : scan expression = .ok tokens)
    (hlimit : ∀ x, ofTokens budget tokens = .error x → ¬ x.IsLimit) :
    (∀ e, ofTokens budget tokens = .ok e ↔
      Derives .conditional (lexemes tokens.dropLast) e) ∧
    (∀ e e', Derives .conditional (lexemes tokens.dropLast) e →
      Derives .conditional (lexemes tokens.dropLast) e' → e = e') ∧
    ((∀ e, ¬ Derives .conditional (lexemes tokens.dropLast) e) →
      ∃ g, ofTokens budget tokens = .error (.grammar g)) ∧
    (∀ n, Level.need .conditional tokens ≤ n → ofTokens n tokens ≠ .error .tooDeep) := by
  have hend := endsText_of_scan hscan
  have hread : ∀ e, Derives .conditional (lexemes tokens.dropLast) e →
      ofTokens budget tokens = .ok e := by
    intro e he
    obtain hok | ⟨x, hx, hx'⟩ := yields_ofTokens budget hend he
    · exact hok
    · exact absurd hx' (hlimit x hx)
  refine ⟨fun e => ⟨derives_of_ofTokens hend, hread e⟩, ?_, ?_, ?_⟩
  · intro e e' he he'
    have hsame := (hread e he).symm.trans (hread e' he')
    cases hsame
    rfl
  · intro hnone
    cases houtcome : ofTokens budget tokens with
    | ok e => exact absurd (derives_of_ofTokens hend houtcome) (hnone e)
    | error x =>
      cases refuses_of_ofTokens houtcome with
      | grammar g => exact ⟨g, rfl⟩
      | digitLimit d => exact absurd trivial (hlimit _ houtcome)
      | tooDeep h => exact absurd trivial (hlimit _ houtcome)
  · intro n hn hdeep
    cases refuses_of_ofTokens hdeep with
    | tooDeep h => exact absurd h (Nat.not_lt.mpr hn)

/-- Negation takes in the whole comparison. -/
theorem negation_of_comparison :
    let tokens : List Token := [⟨.punctuator .not, 1⟩, ⟨.identifier "A", 2⟩,
      ⟨.punctuator .equal, 4⟩, ⟨.integer "1", 7⟩, ⟨.punctuator .and, 9⟩,
      ⟨.identifier "defined", 12⟩, ⟨.identifier "B", 20⟩, ⟨.endOfText, 21⟩]
    let tree : Expr := .binary .and
      (.unary .not (.binary (.compare .eq) (.identifier "A") (.integer "1" 1)))
      (.call definedName (.identifier "B"))
    scan "!A == 1 && defined B".toList = .ok tokens ∧ ofTokens 1000 tokens = .ok tree ∧
      Derives .conditional (lexemes tokens.dropLast) tree := by
  intro tokens tree
  have hscan : scan "!A == 1 && defined B".toList = .ok tokens := by
    with_unfolding_all rfl
  have hread : ofTokens 1000 tokens = .ok tree := by with_unfolding_all rfl
  have hlimit : ∀ x, ofTokens 1000 tokens = .error x → ¬ x.IsLimit := by simp [hread]
  exact ⟨hscan, hread, ((ofTokens_eq_ok_iff_derives hscan hlimit).1 tree).mp hread⟩

end Presence.Expr
