import Presence.Proofs.Token.LongestMatch

/-!
Scanning as a segmentation. The tokens tile the text as far as scanning gets: each is the longest
one at its column, and nothing but separators lies beside them.
-/
namespace Presence

def Token.stop (t : Token) : Nat :=
  t.column + t.lexeme.text.length

/-- The tokens tile the first `n` characters of a text that begins at column `start`. -/
structure Tiles (start : Nat) (s : List Char) (n : Nat) (tokens : List Token) : Prop where
  standing : ∀ t ∈ tokens, start ≤ t.column ∧ t.lexeme.StandsAt (s.drop (t.column - start))
  inside : ∀ t ∈ tokens, t.stop ≤ start + n
  ordered : tokens.Pairwise fun t t' => t.column < t'.column ∧ t.stop ≤ t'.column
  gaps : ∀ i < n, ∀ c, s[i]? = some c →
    (∀ t ∈ tokens, start + i < t.column ∨ t.stop ≤ start + i) → isSeparator c = true

namespace Tiles

variable {start n : Nat} {p s : List Char} {ts us : List Token} {t : Token}

theorem column_lt_stop (h : Tiles start s n ts) (ht : t ∈ ts) : t.column < t.stop := by
  have hpos := List.length_pos_iff.mpr (h.standing t ht).2.nonempty
  simp only [Token.stop]
  omega

theorem drop_column {column : Nat} (h : start + p.length ≤ column) :
    (p ++ s).drop (column - start) = s.drop (column - (start + p.length)) := by
  have hcolumn : column - start = p.length + (column - (start + p.length)) := by omega
  rw [hcolumn, List.drop_length_add_append]

/-- Tilings of neighbouring parts of a text make one of both. -/
theorem append (hp : Tiles start (p ++ s) p.length ts) (h : Tiles (start + p.length) s n us) :
    Tiles start (p ++ s) (p.length + n) (ts ++ us) where
  standing t ht := by
    rcases List.mem_append.mp ht with ht | ht
    · exact hp.standing t ht
    · obtain ⟨hstart, hstands⟩ := h.standing t ht
      rw [drop_column hstart]
      exact ⟨by omega, hstands⟩
  inside t ht := by
    rcases List.mem_append.mp ht with ht | ht
    · have hstop := hp.inside t ht
      omega
    · have hstop := h.inside t ht
      omega
  ordered := by
    refine List.pairwise_append.mpr ⟨hp.ordered, h.ordered, fun t ht u hu => ?_⟩
    have hstop := hp.inside t ht
    have hcolumn := hp.column_lt_stop ht
    have hstart := (h.standing u hu).1
    omega
  gaps i hi c hc hfree := by
    by_cases hinside : i < p.length
    · exact hp.gaps i hinside c hc fun t ht => hfree t (List.mem_append_left us ht)
    · have hindex : i = p.length + (i - p.length) := by omega
      rw [hindex, List.getElem?_append_right (by omega), Nat.add_sub_cancel_left] at hc
      refine h.gaps (i - p.length) (by omega) c hc fun t ht => ?_
      have hfree := hfree t (List.mem_append_right ts ht)
      omega

/-- What lies behind a place that no token lies over is tiled by the tokens behind it. -/
theorem behind (h : Tiles start (p ++ s) (p.length + n) (ts ++ us))
    (hts : ∀ t ∈ ts, t.stop ≤ start + p.length) (hus : ∀ t ∈ us, start + p.length ≤ t.column) :
    Tiles (start + p.length) s n us where
  standing t ht := by
    have hstands := (h.standing t (List.mem_append_right ts ht)).2
    rw [drop_column (hus t ht)] at hstands
    exact ⟨hus t ht, hstands⟩
  inside t ht := by
    have hstop := h.inside t (List.mem_append_right ts ht)
    omega
  ordered := (List.pairwise_append.mp h.ordered).2.1
  gaps i hi c hc hfree := by
    refine h.gaps (p.length + i) (by omega) c ?_ fun t ht => ?_
    · rw [List.getElem?_append_right (by omega), Nat.add_sub_cancel_left, hc]
    · rcases List.mem_append.mp ht with ht | ht
      · have hstop := hts t ht
        omega
      · have hfree := hfree t ht
        omega

theorem nil (start : Nat) (s : List Char) : Tiles start s 0 [] where
  standing := by simp
  inside := by simp
  ordered := .nil
  gaps i hi := absurd hi (Nat.not_lt_zero i)

theorem separator {c : Char} (hc : isSeparator c = true) : Tiles start (c :: s) 1 [] where
  standing := by simp
  inside := by simp
  ordered := .nil
  gaps i hi d hd hfree := by
    obtain rfl : i = 0 := by omega
    obtain rfl : c = d := Option.some.inj hd
    exact hc

theorem single {x : Lexeme} (hx : x.StandsAt s) :
    Tiles start s x.text.length [⟨x, start⟩] where
  standing := by simpa using hx
  inside := by simp [Token.stop]
  ordered := List.pairwise_singleton _ _
  gaps i hi c hc hfree := by
    have hfree := hfree ⟨x, start⟩ List.mem_cons_self
    simp only [Token.stop] at hfree
    omega

theorem eq_nil (h : Tiles start s 0 ts) : ts = [] := by
  refine List.eq_nil_iff_forall_not_mem.mpr fun t ht => ?_
  have hstart := (h.standing t ht).1
  have hstop := h.inside t ht
  have hcolumn := h.column_lt_stop ht
  omega

/-- A token at the start of the text is the first one, and the others tile what is behind it. -/
theorem exists_cons (h : Tiles start s n ts) (ht : t ∈ ts) (hcolumn : t.column = start) :
    ∃ x s' m us, s = Lexeme.text x ++ s' ∧ n = x.text.length + m ∧ ts = ⟨x, start⟩ :: us ∧
      x.StandsAt s ∧ Tiles (start + x.text.length) s' m us := by
  obtain ⟨t', us, rfl⟩ := List.exists_cons_of_ne_nil (List.ne_nil_of_mem ht)
  have hfirst : t'.column = start := by
    rcases List.mem_cons.mp ht with rfl | ht
    · exact hcolumn
    · have hbefore := (List.rel_of_pairwise_cons h.ordered ht).1
      have hstart := (h.standing t' List.mem_cons_self).1
      omega
  obtain ⟨x, column⟩ := t'
  obtain rfl : column = start := hfirst
  have hx : x.StandsAt s := by simpa using (h.standing _ List.mem_cons_self).2
  have hstop : column + x.text.length ≤ column + n := h.inside _ List.mem_cons_self
  obtain ⟨m, rfl⟩ : ∃ m, n = x.text.length + m := ⟨n - x.text.length, by omega⟩
  obtain ⟨s', rfl⟩ := hx.isPrefix
  have hwhole : Tiles column (x.text ++ s') (x.text.length + m) ([⟨x, column⟩] ++ us) := h
  have hus : ∀ u ∈ us, column + x.text.length ≤ u.column :=
    fun u hu => (List.rel_of_pairwise_cons h.ordered hu).2
  exact ⟨x, s', m, us, rfl, rfl, rfl, hx, hwhole.behind (by simp [Token.stop]) hus⟩

/-- Where no token begins the text begins with a separator. -/
theorem of_no_token {c : Char} (h : Tiles start (c :: s) (n + 1) ts)
    (hts : ∀ t ∈ ts, t.column ≠ start) : isSeparator c = true ∧ Tiles (start + 1) s n ts := by
  have hbehind : ∀ t ∈ ts, start + 1 ≤ t.column := by
    intro t ht
    have hstart := (h.standing t ht).1
    have hne := hts t ht
    omega
  constructor
  · refine h.gaps 0 (Nat.succ_pos n) c rfl fun t ht => .inl ?_
    exact hbehind t ht
  · rw [Nat.add_comm n 1] at h
    have hwhole : Tiles start ([c] ++ s) ([c].length + n) ([] ++ ts) := h
    exact hwhole.behind (by simp) hbehind

end Tiles

/-- Separators and tokens are cut off one after the other. -/
inductive Cuts : Nat → List Char → Nat → List Token → Prop
  | nil {column : Nat} {s : List Char} : Cuts column s 0 []
  | separator {column n : Nat} {c : Char} {s : List Char} {ts : List Token}
      (hc : isSeparator c = true) (h : Cuts (column + 1) s n ts) : Cuts column (c :: s) (1 + n) ts
  | token {column n : Nat} {x : Lexeme} {s : List Char} {ts : List Token}
      (hx : x.StandsAt (x.text ++ s)) (h : Cuts (column + x.text.length) s n ts) :
      Cuts column (x.text ++ s) (x.text.length + n) (⟨x, column⟩ :: ts)

theorem Cuts.tiles {column n : Nat} {s : List Char} {ts : List Token} (h : Cuts column s n ts) :
    Tiles column s n ts := by
  induction h with
  | nil => exact .nil _ _
  | @separator column n c s ts hc h ih => exact .append (p := [c]) (.separator hc) ih
  | token hx h ih => exact .append (.single hx) ih

theorem Tiles.cuts {start n : Nat} {s : List Char} {ts : List Token} (h : Tiles start s n ts)
    (hn : n ≤ s.length) : Cuts start s n ts := by
  induction n using Nat.strong_induction_on generalizing start s ts with
  | _ n ih =>
    by_cases hfirst : ∃ t ∈ ts, t.column = start
    · obtain ⟨t, ht, hcolumn⟩ := hfirst
      obtain ⟨x, s, m, us, rfl, rfl, rfl, hx, hus⟩ := h.exists_cons ht hcolumn
      have hpos := List.length_pos_iff.mpr hx.nonempty
      rw [List.length_append] at hn
      exact .token hx (ih m (by omega) hus (by omega))
    · have hnone : ∀ t ∈ ts, t.column ≠ start := fun t ht hcolumn => hfirst ⟨t, ht, hcolumn⟩
      cases n with
      | zero =>
        obtain rfl := h.eq_nil
        exact .nil
      | succ n =>
        cases s with
        | nil => simp at hn
        | cons c s =>
          obtain ⟨hc, hrest⟩ := h.of_no_token hnone
          rw [Nat.add_comm n 1]
          exact .separator hc (ih n (by omega) hrest (by simpa using hn))

/-- What is cut off comes out in front of what becomes of the rest. -/
theorem Cuts.scanFrom {column n : Nat} {s : List Char} {ts : List Token}
    (h : Cuts column s n ts) :
    scanFrom column s = (scanFrom (column + n) (s.drop n)).map (ts ++ ·) := by
  induction h with
  | @nil column s =>
    rw [Nat.add_zero, List.drop_zero]
    cases Presence.scanFrom column s <;> rfl
  | separator hc h ih =>
    rw [Presence.scanFrom, if_pos hc, ih, Nat.add_comm 1, List.drop_succ_cons, Nat.add_right_comm,
      Nat.add_assoc]
  | @token column n x s ts hx h ih =>
    rw [hx.scanFrom, ih, List.drop_length_add_append, Nat.add_assoc]
    cases Presence.scanFrom (column + (x.text.length + n)) (s.drop n) <;> rfl

/-- Cutting goes on up to the end of the text or to an obstruction. -/
theorem exists_cuts (column : Nat) (s : List Char) : ∃ n ts, n ≤ s.length ∧ Cuts column s n ts ∧
    (n = s.length ∨ ∃ e, Obstructs (s.drop n) (column + n) e) := by
  induction hlength : s.length using Nat.strong_induction_on generalizing column s with
  | _ m ih =>
    subst hlength
    rcases next_cases s column with rfl | ⟨c, s, rfl, hc⟩ | ⟨x, s, rfl, hx⟩ | ⟨e, he⟩
    · exact ⟨0, [], Nat.le_refl 0, .nil, .inl rfl⟩
    · obtain ⟨n, ts, hn, hcuts, hend⟩ := ih s.length (by simp) (column + 1) s rfl
      refine ⟨1 + n, ts, by simp; omega, .separator hc hcuts, ?_⟩
      rcases hend with rfl | ⟨e, he⟩
      · exact .inl (Nat.add_comm _ _)
      · rw [Nat.add_assoc] at he
        rw [Nat.add_comm 1, List.drop_succ_cons, Nat.add_comm n]
        exact .inr ⟨e, he⟩
    · have hpos := List.length_pos_iff.mpr hx.nonempty
      have hless : s.length < (x.text ++ s).length := by
        rw [List.length_append]
        omega
      obtain ⟨n, ts, hn, hcuts, hend⟩ := ih s.length hless (column + x.text.length) s rfl
      refine ⟨x.text.length + n, ⟨x, column⟩ :: ts, by simp; omega, .token hx hcuts, ?_⟩
      rw [List.length_append, List.drop_length_add_append, ← Nat.add_assoc]
      exact hend.imp_left (congrArg _)
    · exact ⟨0, [], Nat.zero_le _, .nil, .inr ⟨e, he⟩⟩

section Outcome

variable {s : List Char} {n : Nat} {ts : List Token}

theorem Cuts.scan_of_end (h : Cuts 1 s s.length ts) :
    scan s = .ok (ts ++ [⟨.endOfText, s.length + 1⟩]) := by
  rw [scan, h.scanFrom, List.drop_length, Presence.scanFrom, Nat.add_comm]
  rfl

theorem Cuts.scan_of_obstructs {e : ScanError} (h : Cuts 1 s n ts)
    (he : Obstructs (s.drop n) (n + 1) e) : scan s = .error e := by
  rw [Nat.add_comm] at he
  rw [scan, h.scanFrom, he.scanFrom]
  rfl

theorem scan_cases (s : List Char) :
    (∃ ts, Tiles 1 s s.length ts ∧ scan s = .ok (ts ++ [⟨.endOfText, s.length + 1⟩])) ∨
      ∃ n ts e, Tiles 1 s n ts ∧ Obstructs (s.drop n) (n + 1) e ∧ scan s = .error e := by
  obtain ⟨n, ts, hn, hcuts, rfl | ⟨e, he⟩⟩ := exists_cuts 1 s
  · exact .inl ⟨ts, hcuts.tiles, hcuts.scan_of_end⟩
  · rw [Nat.add_comm] at he
    exact .inr ⟨n, ts, e, hcuts.tiles, he, hcuts.scan_of_obstructs he⟩

end Outcome

/-- Scanning is a longest-match segmentation of the text. It succeeds just when tokens tile all of
the text, and then gives these and the end in the column behind the text. It fails just when tokens
tile the text up to a digit that begins no integer constant or to a character that begins no token,
and then the error has the column where that stands. -/
theorem scan_tiles (s : List Char) :
    (∀ tokens, scan s = .ok tokens ↔
      ∃ ts, Tiles 1 s s.length ts ∧ tokens = ts ++ [⟨.endOfText, s.length + 1⟩]) ∧
    ∀ e, scan s = .error e ↔ ∃ n ts, Tiles 1 s n ts ∧ Obstructs (s.drop n) (n + 1) e := by
  refine ⟨fun tokens => ⟨fun h => ?_, ?_⟩, fun e => ⟨fun h => ?_, ?_⟩⟩
  · rcases scan_cases s with ⟨ts, htiles, hscan⟩ | ⟨n, ts, e, -, -, hscan⟩
    · exact ⟨ts, htiles, Except.ok.inj (h.symm.trans hscan)⟩
    · cases h.symm.trans hscan
  · rintro ⟨ts, htiles, rfl⟩
    exact (htiles.cuts (Nat.le_refl _)).scan_of_end
  · rcases scan_cases s with ⟨ts, -, hscan⟩ | ⟨n, ts, e', htiles, he, hscan⟩
    · cases h.symm.trans hscan
    · obtain rfl : e = e' := Except.error.inj (h.symm.trans hscan)
      exact ⟨n, ts, htiles, he⟩
  · rintro ⟨n, ts, htiles, he⟩
    have hn : n ≤ s.length := by
      by_contra hlong
      exact he.ne_nil (List.drop_eq_nil_of_le (by omega))
    exact (htiles.cuts hn).scan_of_obstructs he

/-- The longest token is taken even if nothing can follow it and a shorter one would do. -/
example : scan "a<<=1".toList = .error (.unexpectedCharacter '=' 4) := by cbv

end Presence
