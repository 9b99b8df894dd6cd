import Reckon.Expr.Render
import Reckon.Proofs.Expr.Reading
import Reckon.Proofs.Grammar.Complete
import Reckon.Proofs.Grammar.DepthLimit

/-!
# Reading what has been written

The canonical text of an expression is that of one grouped phrase, in which every operand is a
number or stands in parentheses (`Expr.phrase`).  So the text is cut into the tokens of that phrase,
and these are read as what the phrase stands for: the expression itself, with the minus of a
negative number as an operator and with positive exponents written out.

The parentheses cost depth.  Every operator takes at most two levels, one for itself and one for
the parenthesis around an operand, so a limit of twice the height is always enough
(`Expr.nesting_phrase_le`).  Under a smaller limit nothing else can be read
(`Expr.withholds_ofTokens`).
-/

namespace Reckon

variable {e : Expr} {p : Phrase} {op : Operator} {d : Decimal}

/-! ## The text of a phrase -/

namespace Phrase

def chars : Phrase → List Char
  | number literal _ => literal.toList
  | parenthesis inside => '(' :: (inside.chars ++ [')'])
  | before op operand => op.symbol :: operand.chars
  | behind operand op => operand.chars ++ [op.symbol]
  | between left op right => left.chars ++ op.symbol :: right.chars

/-- The text of a phrase is laid out with its tokens: no two numbers stand next to each other. -/
theorem layout_append {tokens : List Token} {text : List Char}
    (hreadable : ∀ t ∈ p.tokens, t.Readable) (h : Token.Layout tokens text)
    (hend : ∀ c ∈ text.head?, c.isDigit = false) :
    Token.Layout (p.tokens ++ tokens) (p.chars ++ text) := by
  induction p generalizing tokens text with
  | number literal value =>
      exact .number (hreadable _ List.mem_cons_self) hend h
  | parenthesis inside ih =>
      have hinside : ∀ t ∈ inside.tokens, t.Readable :=
        fun t ht => hreadable t (by simp [Phrase.tokens, ht])
      have hlayout := ih hinside (.rightParen h) (by simp)
      simpa [Phrase.tokens, chars] using Token.Layout.leftParen hlayout
  | before op operand ih =>
      have hoperand : ∀ t ∈ operand.tokens, t.Readable :=
        fun t ht => hreadable t (by simp [Phrase.tokens, ht])
      exact .symbol (Token.isSymbol_symbol op) (ih hoperand h hend)
  | behind operand op ih =>
      have hoperand : ∀ t ∈ operand.tokens, t.Readable :=
        fun t ht => hreadable t (by simp [Phrase.tokens, ht])
      have hlayout := ih hoperand (.symbol (Token.isSymbol_symbol op) h)
        (by simp [(Token.symbol_facts op).2.1])
      simpa [Phrase.tokens, chars] using hlayout
  | between left op right ihl ihr =>
      have hleft : ∀ t ∈ left.tokens, t.Readable :=
        fun t ht => hreadable t (by simp [Phrase.tokens, ht])
      have hright : ∀ t ∈ right.tokens, t.Readable :=
        fun t ht => hreadable t (by simp [Phrase.tokens, ht])
      have hlayout := ihl hleft (.symbol (Token.isSymbol_symbol op) (ihr hright h hend))
        (by simp [(Token.symbol_facts op).2.1])
      simpa [Phrase.tokens, chars] using hlayout

theorem scan_chars (hreadable : ∀ t ∈ p.tokens, t.Readable) :
    Token.scan (String.ofList p.chars) = .ok p.tokens := by
  have hlayout := layout_append hreadable .nil (by simp)
  rw [List.append_nil, List.append_nil] at hlayout
  exact Token.scan_of_layout hlayout

theorem PrecedesPostfix.fitsRight (h : p.PrecedesPostfix) : p.FitsRight op :=
  fitsRight_iff.2 (h.atLeast _)

end Phrase

/-! ## The phrase that is written -/

namespace Expr

/-- The phrase of an expression as an operand. -/
def enclosed (operand : Expr) (p : Phrase) : Phrase :=
  if operand.isBare then p else .parenthesis p

/-- The phrase of a number without its sign. -/
def numeralPhrase (d : Decimal) : Phrase := .number d.plainText d.plain

/-- The phrase that the canonical text is written by. -/
def phrase : Expr → Phrase
  | number value =>
    if value.isNegative then .before .minus (numeralPhrase value.abs) else numeralPhrase value
  | unary op operand =>
    match op.fixing with
    | .behind => .behind (enclosed operand operand.phrase) op
    | .before | .between => .before op (enclosed operand operand.phrase)
  | binary op left right =>
    .between (enclosed left left.phrase) op (enclosed right right.phrase)

/-- An operand is a number or stands in parentheses. -/
theorem enclosed_followsPrefix (e : Expr) : (enclosed e e.phrase).FollowsPrefix := by
  unfold enclosed
  split
  · next hbare =>
    cases e with
    | number value =>
        have hvalue : ¬value.isNegative := by
          simpa only [isBare, Bool.not_eq_true', Bool.not_eq_true] using hbare
        rw [phrase, if_neg hvalue]
        trivial
    | unary | binary => cases hbare
  · trivial

theorem chars_enclosed {text : List Char} (h : p.chars = text) :
    (enclosed e p).chars = enclose e text := by
  subst h
  unfold enclosed enclose
  split <;> rfl

theorem chars_numeralPhrase (d : Decimal) : (numeralPhrase d).chars = d.plainChars :=
  String.toList_ofList

theorem chars_phrase (e : Expr) : e.phrase.chars = e.chars := by
  induction e with
  | number value =>
      unfold phrase
      split
      · next hneg =>
        simp [Phrase.chars, chars_numeralPhrase, Expr.chars, Operator.symbol,
          Decimal.plainChars_of_neg (Decimal.isNegative_iff.1 hneg)]
      · exact chars_numeralPhrase value
  | unary op operand ih =>
      unfold phrase Expr.chars
      cases op.fixing <;> simp [Phrase.chars, chars_enclosed ih]
  | binary op left right ihl ihr =>
      unfold phrase Expr.chars
      simp [Phrase.chars, chars_enclosed ihl, chars_enclosed ihr]

theorem expr_enclosed : (enclosed e p).expr = p.expr := by
  unfold enclosed
  split <;> rfl

theorem expr_phrase (e : Expr) : e.phrase.expr = e.signless.plain := by
  induction e with
  | number value =>
      unfold phrase signless
      split <;> rfl
  | unary op operand ih =>
      unfold phrase signless
      cases op.fixing <;> simp [Phrase.expr, plain, expr_enclosed, ih]
  | binary op left right ihl ihr =>
      simp [phrase, signless, Phrase.expr, plain, expr_enclosed, ihl, ihr]

/-! ## The written phrase is grouped -/

theorem grouped_numeralPhrase (hd : 0 ≤ d.coefficient) (h : d.Writable) :
    (numeralPhrase d).Grouped :=
  Decimal.read_plainText hd h

theorem grouped_enclosed (h : p.Grouped) : (enclosed e p).Grouped := by
  unfold enclosed
  split <;> exact h

theorem grouped_phrase (hwellFormed : e.WellFormed) (hwritable : e.Writable) :
    e.phrase.Grouped := by
  induction e with
  | number value =>
      have hvalue : value.Writable := hwritable
      unfold phrase
      split
      · exact ⟨rfl, grouped_numeralPhrase (Int.natCast_nonneg _) hvalue.abs, trivial⟩
      · next hneg =>
        rw [Decimal.isNegative_iff, not_lt] at hneg
        exact grouped_numeralPhrase hneg hvalue
  | unary op operand ih =>
      obtain ⟨hfixing, hoperand⟩ := hwellFormed
      have hfollows := operand.enclosed_followsPrefix
      have hgrouped := grouped_enclosed (e := operand) (ih hoperand hwritable)
      unfold phrase
      cases hop : op.fixing with
      | before => exact ⟨hop, hgrouped, hfollows⟩
      | behind => exact ⟨hop, hgrouped, hfollows.precedesPostfix⟩
      | between => exact absurd hop hfixing
  | binary op left right ihl ihr =>
      obtain ⟨hfixing, hleft, hright⟩ := hwellFormed
      exact ⟨hfixing, grouped_enclosed (ihl hleft hwritable.1),
        grouped_enclosed (ihr hright hwritable.2),
        left.enclosed_followsPrefix.precedesPostfix.fitsLeft,
        right.enclosed_followsPrefix.precedesPostfix.fitsRight⟩

theorem readable_numeralPhrase (hd : 0 ≤ d.coefficient) (h : d.Writable) :
    ∀ t ∈ (numeralPhrase d).tokens, t.Readable := by
  intro t ht
  cases List.mem_singleton.1 ht
  refine ⟨d.plain, ?_⟩
  rw [Decimal.plainText, String.toList_ofList]
  exact Decimal.numeral_plainChars hd h

theorem readable_enclosed (h : ∀ t ∈ p.tokens, t.Readable) :
    ∀ t ∈ (enclosed e p).tokens, t.Readable := by
  unfold enclosed
  split
  · exact h
  · intro t ht
    simp only [Phrase.tokens, List.mem_cons, List.mem_append, List.not_mem_nil, or_false] at ht
    rcases ht with rfl | ht | rfl
    · trivial
    · exact h t ht
    · trivial

theorem readable_phrase (hwritable : e.Writable) : ∀ t ∈ e.phrase.tokens, t.Readable := by
  have hsymbol : ∀ op : Operator, (Token.symbol op.symbol).Readable := Token.isSymbol_symbol
  induction e with
  | number value =>
      have hvalue : value.Writable := hwritable
      unfold phrase
      split
      · intro t ht
        rcases List.mem_cons.1 ht with rfl | ht
        · exact hsymbol .minus
        · exact readable_numeralPhrase (Int.natCast_nonneg _) hvalue.abs t ht
      · next hneg =>
        rw [Decimal.isNegative_iff, not_lt] at hneg
        exact readable_numeralPhrase hneg hvalue
  | unary op operand ih =>
      have hoperand := readable_enclosed (e := operand) (ih hwritable)
      unfold phrase
      intro t ht
      cases hop : op.fixing with
      | before | between =>
          simp only [hop, Phrase.tokens, List.mem_cons] at ht
          rcases ht with rfl | ht
          · exact hsymbol op
          · exact hoperand t ht
      | behind =>
          simp only [hop, Phrase.tokens, List.mem_append, List.mem_singleton] at ht
          rcases ht with ht | rfl
          · exact hoperand t ht
          · exact hsymbol op
  | binary op left right ihl ihr =>
      intro t ht
      simp only [phrase, Phrase.tokens, List.mem_append, List.mem_cons] at ht
      rcases ht with ht | rfl | ht
      · exact readable_enclosed (ihl hwritable.1) t ht
      · exact hsymbol op
      · exact readable_enclosed (ihr hwritable.2) t ht

/-! ## The depth of the written phrase -/

theorem nesting_enclosed_le (h : e.phrase.nesting ≤ max 1 (2 * e.signless.height)) :
    (enclosed e e.phrase).nesting ≤ 2 * e.signless.height + 1 := by
  unfold enclosed
  split
  · omega
  · -- only what has an operator is put in parentheses
    next hbare =>
    have hheight : 0 < e.signless.height := by
      cases e with
      | number value =>
          have hvalue : value.isNegative := by
            simpa only [isBare, Bool.not_eq_true', Bool.not_eq_false] using hbare
          rw [signless, if_pos hvalue]
          exact Nat.succ_pos _
      | unary | binary => exact Nat.succ_pos _
    simp only [Phrase.nesting]
    omega

theorem nesting_phrase_le (e : Expr) : e.phrase.nesting ≤ max 1 (2 * e.signless.height) := by
  induction e with
  | number value =>
      unfold phrase signless
      split <;> simp [numeralPhrase, Phrase.nesting, height]
  | unary op operand ih =>
      have hoperand := nesting_enclosed_le ih
      unfold phrase signless
      cases op.fixing <;> simp only [Phrase.nesting, height] <;> omega
  | binary op left right ihl ihr =>
      have hleft := nesting_enclosed_le ihl
      have hright := nesting_enclosed_le ihr
      simp only [phrase, signless, Phrase.nesting, height]
      omega

/-! ## Reading the text -/

variable {limits limits' : Limits}

theorem scan_render (hwritable : e.Writable) : Token.scan e.render = .ok e.phrase.tokens := by
  unfold render
  rw [← chars_phrase]
  exact Phrase.scan_chars (readable_phrase hwritable)

theorem parse_render (hwritable : e.Writable) :
    parse limits e.render = (ofTokens limits e.phrase.tokens).mapError .parse := by
  unfold parse
  rw [scan_render hwritable]
  rfl

theorem ofTokens_phrase_tokens (limits : Limits) (hwellFormed : e.WellFormed)
    (hwritable : e.Writable) (hdepth : max 1 (2 * e.signless.height) ≤ limits.maxDepth) :
    ofTokens limits e.phrase.tokens = .ok e.signless.plain := by
  have hnesting := e.nesting_phrase_le
  rw [← expr_phrase]
  refine ofTokens_phrase (grouped_phrase hwellFormed hwritable) ?_ (by omega)
  rw [expr_phrase, height_plain]
  omega

/-- Under any limit the text is read as what it was written from, or is nested too deeply. -/
theorem parse_render_cases (hwellFormed : e.WellFormed) (hwritable : e.Writable) :
    parse limits e.render = .ok e.signless.plain ∨
      ∃ position, parse limits e.render =
        .error (.parse (.nestingTooDeep limits.maxDepth position)) := by
  -- a larger limit that is certainly enough
  obtain ⟨deep, hlimits, hdeep⟩ : ∃ deep : Limits, limits.maxDepth ≤ deep.maxDepth ∧
      max 1 (2 * e.signless.height) ≤ deep.maxDepth :=
    ⟨{ limits with
        maxDepth := limits.maxDepth + 2 * e.signless.height,
        maxDepth_pos := Nat.add_pos_left limits.maxDepth_pos _ },
      Nat.le_add_right _ _, by have := limits.maxDepth_pos; dsimp only; omega⟩
  have hfull := ofTokens_phrase_tokens _ hwellFormed hwritable hdeep
  rw [parse_render hwritable]
  rcases withholds_ofTokens hlimits e.phrase.tokens with ⟨position, hwithheld⟩ | hsame
  · exact Or.inr ⟨position, by rw [hwithheld]; rfl⟩
  · exact Or.inl (by rw [hsame, hfull]; rfl)

end Expr

/-! ## What has been read -/

namespace Expr

variable {limits limits' : Limits} {source : String}

/-- An expression that is read from a text is well formed, keeps the depth limit, can be written
again, and is its own canonical form. -/
theorem of_parse (h : parse limits source = .ok e) (hlength : source.toList.length < 2 ^ 63) :
    e.WellFormed ∧ e.height ≤ limits.maxDepth ∧ e.Writable ∧ e.signless = e ∧ e.plain = e := by
  obtain ⟨hwellFormed, hheight, hnumbers⟩ := numerals_of_parse h
  refine ⟨hwellFormed, hheight, hnumbers.imp ?_, signless_of_nonneg (hnumbers.imp ?_),
    plain_of_nonpos (hnumbers.imp ?_)⟩
  · rintro d ⟨text, hd, hle⟩
    exact hd.writable (hle.trans_lt hlength)
  · rintro d ⟨text, hd, -⟩
    exact hd.nonneg.1
  · rintro d ⟨text, hd, -⟩
    exact hd.nonneg.2

/-! ## The main result -/

/-- The canonical text of an expression is read as the same expression, negative numbers having
become negations, when the depth limit is at least twice the height; under any other limit it is
read as that or found to be nested too deeply.

In particular, what was read once under a limit, from a text of any length that the register can
count, is read again from its canonical text under twice that limit. -/
theorem parse_render_round_trip (limits : Limits) :
    (∀ e : Expr, e.WellFormed → e.Moderate →
      ∃ e' : Expr, e'.SameAs e.signless ∧
        (e.ForallNumbers (fun d => d.exponent ≤ largestPower) → e'.equiv e.signless) ∧
        (max 1 (2 * e.signless.height) ≤ limits.maxDepth → parse limits e.render = .ok e') ∧
        (parse limits e.render = .ok e' ∨
          ∃ position, parse limits e.render =
            .error (.parse (.nestingTooDeep limits.maxDepth position)))) ∧
    ∀ (limits' : Limits) (source : String) (e : Expr), source.toList.length < 2 ^ 63 →
      parse limits source = .ok e → 2 * limits.maxDepth ≤ limits'.maxDepth →
      parse limits' e.render = .ok e := by
  constructor
  · intro e hwellFormed hmoderate
    have hwritable := hmoderate.writable
    refine ⟨e.signless.plain, plain_sameAs _, ?_, ?_, parse_render_cases hwellFormed hwritable⟩
    · intro hexponents
      exact plain_equiv (forallNumbers_signless hexponents fun d hd => hd)
    · intro hdepth
      rw [parse_render hwritable, ofTokens_phrase_tokens _ hwellFormed hwritable hdepth]
      rfl
  · intro limits' source e hlength hparse hdepth
    have hpos := limits.maxDepth_pos
    obtain ⟨hwellFormed, hheight, hwritable, hsignless, hplain⟩ := of_parse hparse hlength
    have hread := ofTokens_phrase_tokens limits' hwellFormed hwritable
      (by rw [hsignless]; omega)
    rw [hsignless, hplain] at hread
    rw [parse_render hwritable, hread]
    rfl

/-- The minus of a negative number becomes an operator, and what a limit of four levels allowed is
read again under the default limit. -/
theorem parse_render_seven_minus :
    (∃ e', e'.SameAs (.binary .subtract (.number ⟨7, 0⟩) (.unary .minus (.number ⟨12, 0⟩))) ∧
      parse .default (binary .subtract (.number ⟨7, 0⟩) (.number ⟨-12, 0⟩)).render = .ok e') ∧
    parse .default
        (binary .subtract (.number ⟨7, 0⟩)
          (.binary .divide (.number ⟨4, 0⟩) (.number ⟨2, 0⟩))).render =
      .ok (.binary .subtract (.number ⟨7, 0⟩)
        (.binary .divide (.number ⟨4, 0⟩) (.number ⟨2, 0⟩))) := by
  constructor
  · obtain ⟨e', hsame, -, hread, -⟩ := (parse_render_round_trip .default).1
      (.binary .subtract (.number ⟨7, 0⟩) (.number ⟨-12, 0⟩)) ⟨rfl, trivial, trivial⟩
      ⟨⟨by decide, by decide, by decide⟩, ⟨by decide, by decide, by decide⟩⟩
    exact ⟨e', hsame, hread (by decide)⟩
  · exact (parse_render_round_trip
      { Limits.default with maxDepth := 4, maxDepth_pos := by decide }).2 .default "7-4/2" _
      (by decide) (by decide +kernel) (by decide)

end Expr

end Reckon
