import RecipeDesk.Assembler.Listing
import RecipeDesk.Proofs.Assembler.Grammar

/-!
# Reading is derivation

The reader of a line accepts exactly the lines that derive, and its trees are those of the
derivations. Two facts are carried from reader to reader:

* `Sound`: what a reader takes off the front of a line derives from its rule.
* `Complete`: whatever derives from the rule is taken off, tree and all, provided that the tokens
  behind it cannot go on with it. What cannot go on with an item differs from rule to rule: a factor
  needs nothing, an expression must not be followed by an operator, and an operand must be followed
  by a comma or by the end of the line.

Completeness is where a greedy reader could go wrong, and the condition on what follows is what the
rules above grant: in a sum a product is followed by a plus or a minus sign, never by a star, and
so on. Readers are functions, so completeness also says that a derivation is unique, except for the
overlap of the mnemonic form with the bare operand, which the reader decides by its order.
-/

namespace RecipeDesk.Assembler

/-- What the reader takes off the front of a line derives from the rule. -/
def Sound {α : Type} (read : List Lexeme → Option (α × List Lexeme))
    (Rule : List Lexeme → α → Prop) : Prop :=
  ∀ ⦃ls : List Lexeme⦄ ⦃value : α⦄ ⦃rest : List Lexeme⦄, read ls = some (value, rest) →
    ∃ taken, ls = taken ++ rest ∧ Rule taken value

/-- Whatever derives from the rule is taken off, if what follows is in `Follow`. -/
def Complete {α : Type} (read : List Lexeme → Option (α × List Lexeme))
    (Rule : List Lexeme → α → Prop) (Follow : List Lexeme → Prop) : Prop :=
  ∀ ⦃taken : List Lexeme⦄ ⦃value : α⦄ ⦃rest : List Lexeme⦄, Rule taken value → Follow rest →
    read (taken ++ rest) = some (value, rest)

/-- A reader that reaches the end of the line has read a derivation of the line. -/
theorem Sound.whole {α : Type} {read : List Lexeme → Option (α × List Lexeme)}
    {Rule : List Lexeme → α → Prop} (h : Sound read Rule) {ls : List Lexeme} {value : α}
    (hread : read ls = some (value, [])) : Rule ls value := by
  obtain ⟨taken, rfl, hrule⟩ := h hread
  rw [List.append_nil]
  exact hrule

theorem Complete.whole {α : Type} {read : List Lexeme → Option (α × List Lexeme)}
    {Rule : List Lexeme → α → Prop} {Follow : List Lexeme → Prop} (h : Complete read Rule Follow)
    {ls : List Lexeme} {value : α} (hrule : Rule ls value) (hend : Follow []) :
    read ls = some (value, []) := by
  have hread := h hrule hend
  rwa [List.append_nil] at hread

/-- No operator stands first. -/
def NoOperator (op? : Token → Option BinaryOp) (rest : List Lexeme) : Prop :=
  ∀ l ∈ rest.head?, op? l.token = none

/-! ### Expressions -/

namespace Expr

theorem derivesFactor_of_ofLexeme? {l : Lexeme} {atom : Expr} (h : ofLexeme? l = some atom) :
    atom.DerivesFactor [l] := by
  obtain ⟨token, span⟩ := l
  cases token <;> cases h
  · exact .name span _
  · exact .integer span _ _
  · exact .character span _
  · exact .text span _

theorem readFactor?_sound : Sound readFactor? DerivesFactor := by
  intro ls value rest h
  induction ls generalizing value rest with
  | nil => cases h
  | cons first tail ih =>
      unfold readFactor? at h
      split at h
      · next hminus =>
          obtain ⟨⟨operand, rest'⟩, hinner, hsame⟩ := Option.map_eq_some_iff.mp h
          obtain ⟨rfl, rfl⟩ := Prod.mk.inj hsame
          obtain ⟨taken, rfl, hderives⟩ := ih hinner
          obtain ⟨token, span⟩ := first
          obtain rfl : token = .symbol .minus := hminus
          exact ⟨_ :: taken, rfl, .negate span hderives⟩
      · obtain ⟨atom, hatom, hsame⟩ := Option.map_eq_some_iff.mp h
        obtain ⟨rfl, rfl⟩ := Prod.mk.inj hsame
        exact ⟨[first], rfl, derivesFactor_of_ofLexeme? hatom⟩

theorem readFactor?_complete : Complete readFactor? DerivesFactor fun _ => True := by
  intro taken value rest h _
  induction h with
  | negate sign _ ih => simp [readFactor?, ih]
  | _ => rfl

section Chain

variable {op? : Token → Option BinaryOp} {next : List Lexeme → Option (Expr × List Lexeme)}
  (progress : Progresses next) {Item : List Lexeme → Expr → Prop}

/-- What has been read before, `before`, goes into the chain that is read on from there. -/
theorem readChain?_sound (hnext : Sound next Item) {left value : Expr}
    {before ls rest : List Lexeme} (hleft : DerivesChain op? Item before left)
    (h : readChain? op? next progress left ls = some (value, rest)) :
    ∃ taken, ls = taken ++ rest ∧ DerivesChain op? Item (before ++ taken) value := by
  -- the reader and the rule both grow the chain at its right end
  fun_induction readChain? op? next progress left ls generalizing before with
  | case1 left =>
      obtain ⟨rfl, rfl⟩ := Prod.mk.inj (Option.some.inj h)
      exact ⟨[], rfl, by simpa using hleft⟩
  | case2 left first tail =>
      obtain ⟨rfl, rfl⟩ := Prod.mk.inj (Option.some.inj h)
      exact ⟨[], rfl, by simpa using hleft⟩
  | case3 => cases h
  | case4 left first tail op hop right tail' hright ih =>
      obtain ⟨item, rfl, hitem⟩ := hnext hright
      obtain ⟨taken, rfl, hchain⟩ := ih (.operate hleft hop hitem) h
      exact ⟨first :: (item ++ taken), by simp, by simpa using hchain⟩

theorem readChain?_stop {value : Expr} {rest : List Lexeme} (h : NoOperator op? rest) :
    readChain? op? next progress value rest = some (value, rest) := by
  cases rest with
  | nil => rw [readChain?]
  | cons first tail => rw [readChain?, h first rfl]

/-- Reading a chain and whatever follows comes to having read the chain already. -/
theorem readChain?_complete {Follow : List Lexeme → Prop} (hnext : Complete next Item Follow)
    (hfollow : ∀ sign rest op, op? sign.token = some op → Follow (sign :: rest))
    {taken rest : List Lexeme} {value : Expr} (h : DerivesChain op? Item taken value)
    (hrest : Follow rest) :
    ∃ left tail, next (taken ++ rest) = some (left, tail) ∧
      readChain? op? next progress left tail = readChain? op? next progress value rest := by
  -- on the derivation, since the reader meets the first item of a chain first and the rule last
  induction h generalizing rest with
  | item h => exact ⟨_, rest, hnext h hrest, rfl⟩
  | @operate ls rs left right sign op _ hop hright ih =>
      obtain ⟨first, tail, hfirst, hchain⟩ := ih (hfollow sign (rs ++ rest) op hop)
      have hstep : readChain? op? next progress left (sign :: (rs ++ rest)) =
          readChain? op? next progress (.binary op left right) rest := by
        have hread := hnext hright hrest
        rw [readChain?, hop]
        dsimp only
        split
        · next hnone => rw [hnone] at hread; cases hread
        · next hsome => rw [hsome] at hread; cases hread; rfl
      refine ⟨first, tail, ?_, hchain.trans hstep⟩
      rw [List.append_assoc]
      exact hfirst

/-- A reader of chains: an item, and what goes on from it. -/
theorem readItems_sound (hnext : Sound next Item) {ls rest : List Lexeme} {value : Expr}
    (h : (next ls).bind (fun first => readChain? op? next progress first.1 first.2) =
      some (value, rest)) :
    ∃ taken, ls = taken ++ rest ∧ DerivesChain op? Item taken value := by
  obtain ⟨⟨left, tail⟩, hfirst, hchain⟩ := Option.bind_eq_some_iff.mp h
  obtain ⟨item, rfl, hitem⟩ := hnext hfirst
  obtain ⟨more, rfl, hderives⟩ := readChain?_sound progress hnext (.item hitem) hchain
  exact ⟨item ++ more, (List.append_assoc ..).symm, hderives⟩

theorem readItems_complete {Follow : List Lexeme → Prop} (hnext : Complete next Item Follow)
    (hfollow : ∀ sign rest op, op? sign.token = some op → Follow (sign :: rest))
    {taken rest : List Lexeme} {value : Expr} (h : DerivesChain op? Item taken value)
    (hrest : Follow rest) (hstop : NoOperator op? rest) :
    (next (taken ++ rest)).bind (fun first => readChain? op? next progress first.1 first.2) =
      some (value, rest) := by
  obtain ⟨left, tail, hfirst, hchain⟩ := readChain?_complete progress hnext hfollow h hrest
  rw [hfirst]
  exact hchain.trans (readChain?_stop progress hstop)

end Chain

theorem readProduct?_eq (ls : List Lexeme) :
    readProduct? ls = (readFactor? ls).bind fun first =>
      readChain? productOp? readFactor? length_readFactor? first.1 first.2 := by
  unfold readProduct?
  cases readFactor? ls <;> rfl

theorem readProduct?_sound : Sound readProduct? DerivesProduct := by
  intro ls value rest h
  rw [readProduct?_eq] at h
  exact readItems_sound length_readFactor? readFactor?_sound h

theorem readProduct?_complete :
    Complete readProduct? DerivesProduct (NoOperator productOp?) := by
  intro taken value rest h hrest
  rw [readProduct?_eq]
  exact readItems_complete length_readFactor? readFactor?_complete (fun _ _ _ _ => trivial) h
    trivial hrest

theorem read?_eq (ls : List Lexeme) :
    read? ls = (readProduct? ls).bind fun first =>
      readChain? sumOp? readProduct? length_readProduct? first.1 first.2 := by
  unfold read?
  cases readProduct? ls <;> rfl

theorem read?_sound : Sound read? Derives := by
  intro ls value rest h
  rw [read?_eq] at h
  exact readItems_sound length_readProduct? readProduct?_sound h

/-- What cannot go on with an expression. -/
def Follow (rest : List Lexeme) : Prop := NoOperator productOp? rest ∧ NoOperator sumOp? rest

/-- In a sum, what follows a product is a plus or a minus sign, never a star. -/
theorem noOperator_of_sumOp? {sign : Lexeme} (rest : List Lexeme) {op : BinaryOp}
    (h : sumOp? sign.token = some op) : NoOperator productOp? (sign :: rest) := by
  intro l hl
  obtain rfl : sign = l := by simpa using hl
  unfold sumOp? at h
  split at h
  · next hplus => rw [hplus]; rfl
  · next hminus => rw [hminus]; rfl
  · cases h

theorem read?_complete : Complete read? Derives Follow := by
  intro taken value rest h hrest
  rw [read?_eq]
  exact readItems_complete length_readProduct? readProduct?_complete
    (fun _ rest _ hop => noOperator_of_sumOp? rest hop) h hrest.1 hrest.2

/-- Every chain begins with an item. -/
theorem DerivesChain.exists_first {op? : Token → Option BinaryOp}
    {Item : List Lexeme → Expr → Prop} {ls : List Lexeme} {value : Expr}
    (h : DerivesChain op? Item ls value) :
    ∃ item first tail, ls = item ++ tail ∧ Item item first := by
  induction h with
  | @item ls value h => exact ⟨ls, value, [], (List.append_nil ls).symm, h⟩
  | operate _ _ _ ih =>
      obtain ⟨item, first, tail, rfl, hitem⟩ := ih
      exact ⟨item, first, _, List.append_assoc .., hitem⟩

theorem Derives.exists_factor {ls : List Lexeme} {value : Expr} (h : value.Derives ls) :
    ∃ factor first tail, ls = factor ++ tail ∧ DerivesFactor factor first := by
  obtain ⟨product, _, tail, rfl, hproduct⟩ := h.exists_first
  obtain ⟨factor, first, tail', rfl, hfactor⟩ := hproduct.exists_first
  exact ⟨factor, first, tail' ++ tail, List.append_assoc .., hfactor⟩

end Expr

/-! ### Operands -/

namespace Operand

theorem readRegister?_sound {ls rest : List Lexeme} {register : Name} {stop : Position}
    (h : readRegister? ls = some (register, stop, rest)) :
    ∃ taken span, ls = taken ++ rest ∧ register.DerivesRegister taken span ∧ span.stop = stop ∧
      ∀ l ∈ ls.head?, span.start = l.span.start := by
  unfold readRegister? at h
  split at h
  · next opening name span closing rest' =>
      cases h
      refine ⟨_, _, rfl, .mk opening closing ⟨name, span⟩, rfl, ?_⟩
      intro l hl
      obtain rfl : ⟨.symbol .leftParen, opening⟩ = l := by simpa using hl
      rfl
  · cases h

theorem readRegister?_complete {ls : List Lexeme} {register : Name} {span : Span}
    (h : register.DerivesRegister ls span) (rest : List Lexeme) :
    readRegister? (ls ++ rest) = some (register, span.stop, rest) := by
  cases h
  rfl

theorem readIndexed?_sound : Sound readIndexed? Derives := by
  intro ls operand rest h
  unfold readIndexed? at h
  split at h
  · cases h
  · next value tail hvalue =>
      obtain ⟨taken, rfl, hderives⟩ := Expr.read?_sound hvalue
      split at h
      · next register stop rest' hregister =>
          cases h
          obtain ⟨taken', span, rfl, hderives', rfl, -⟩ := readRegister?_sound hregister
          exact ⟨taken ++ taken', (List.append_assoc ..).symm, .indexed hderives hderives'⟩
      · cases h
        exact ⟨taken, rfl, .absolute hderives⟩

theorem readDeferred?_sound {first : Lexeme} {tail rest : List Lexeme} {operand : Operand}
    (h : readDeferred? first.span.start (first :: tail) = some (operand, rest)) :
    ∃ taken, first :: tail = taken ++ rest ∧ operand.Derives taken := by
  unfold readDeferred? at h
  split at h
  · cases h
  · next register stop plus rest' hregister =>
      cases h
      obtain ⟨taken, span, hls, hderives, -, hstart⟩ := readRegister?_sound hregister
      rw [← hstart first rfl]
      exact ⟨taken ++ [_], by simp [hls], .postIncrement plus hderives⟩
  · next register stop rest' _ hregister =>
      cases h
      obtain ⟨taken, span, hls, hderives, rfl, hstart⟩ := readRegister?_sound hregister
      rw [← hstart first rfl]
      exact ⟨taken, hls, .deferred hderives⟩

theorem read?_sound : Sound read? Derives := by
  intro ls operand rest h
  induction ls generalizing operand rest with
  | nil => cases h
  | cons first tail ih =>
      unfold read? at h
      obtain ⟨token, span⟩ := first
      dsimp only at h
      split at h
      · obtain ⟨⟨value, rest'⟩, hvalue, hsame⟩ := Option.map_eq_some_iff.mp h
        obtain ⟨rfl, rfl⟩ := Prod.mk.inj hsame
        obtain ⟨taken, rfl, hderives⟩ := Expr.read?_sound hvalue
        exact ⟨_ :: taken, rfl, .immediate span hderives⟩
      · obtain ⟨⟨inner, rest'⟩, hinner, hsame⟩ := Option.map_eq_some_iff.mp h
        obtain ⟨rfl, rfl⟩ := Prod.mk.inj hsame
        obtain ⟨taken, rfl, hderives⟩ := ih hinner
        exact ⟨_ :: taken, rfl, .doubleIndirect span hderives⟩
      · exact readDeferred?_sound h
      · split at h
        · next register stop rest' hregister =>
            cases h
            obtain ⟨taken, span', rfl, hderives, rfl, -⟩ := readRegister?_sound hregister
            exact ⟨_ :: taken, rfl, .preDecrement span hderives⟩
        · exact readIndexed?_sound h
      · exact readIndexed?_sound h

/-- What cannot go on with an operand: nothing more, or a comma. -/
def Follow (rest : List Lexeme) : Prop := ∀ l ∈ rest.head?, l.token = .symbol .comma

theorem follow_nil : Follow [] := nofun

theorem follow_comma (span : Span) (rest : List Lexeme) :
    Follow (⟨.symbol .comma, span⟩ :: rest) := by
  intro l hl
  obtain rfl : ⟨.symbol .comma, span⟩ = l := by simpa using hl
  rfl

theorem Follow.expr {rest : List Lexeme} (h : Follow rest) : Expr.Follow rest := by
  refine ⟨fun l hl => ?_, fun l hl => ?_⟩ <;> rw [h l hl] <;> rfl

theorem Follow.cases {rest : List Lexeme} (h : Follow rest) :
    rest = [] ∨ ∃ span tail, rest = ⟨.symbol .comma, span⟩ :: tail := by
  cases rest with
  | nil => exact Or.inl rfl
  | cons l tail =>
      obtain ⟨token, span⟩ := l
      obtain rfl : token = .symbol .comma := h _ rfl
      exact Or.inr ⟨span, tail, rfl⟩

/-- A minus sign begins an expression, unless a register follows it. -/
theorem read?_of_factor {ls : List Lexeme} {value : Expr} (h : value.DerivesFactor ls)
    (rest : List Lexeme) : read? (ls ++ rest) = readIndexed? (ls ++ rest) := by
  cases h with
  | @negate ls operand sign h =>
      have hnone : readRegister? (ls ++ rest) = none := by
        cases h <;> rfl
      simp [read?, hnone]
  | _ => rfl

theorem read?_of_expr {ls : List Lexeme} {value : Expr} (h : value.Derives ls)
    (rest : List Lexeme) : read? (ls ++ rest) = readIndexed? (ls ++ rest) := by
  obtain ⟨factor, first, tail, rfl, hfactor⟩ := h.exists_factor
  rw [List.append_assoc]
  exact read?_of_factor hfactor _

theorem read?_complete : Complete read? Derives Follow := by
  intro taken operand rest h hrest
  induction h with
  | immediate sharp h => simp [read?, Expr.read?_complete h hrest.expr]
  | deferred h =>
      cases h
      -- neither a comma nor the end of the line makes a post-increment
      obtain rfl | ⟨span, tail, rfl⟩ := hrest.cases <;> rfl
  | postIncrement plus h =>
      cases h
      rfl
  | preDecrement minus h =>
      have hregister := readRegister?_complete h rest
      simp [read?, hregister]
  | doubleIndirect atSign _ ih => simp [read?, ih]
  | absolute h =>
      have hnone : readRegister? rest = none := by
        obtain rfl | ⟨span, tail, rfl⟩ := hrest.cases <;> rfl
      simp [read?_of_expr h, readIndexed?, Expr.read?_complete h hrest.expr, hnone]
  | @indexed ls rs value register span h hregister =>
      have hparen : Expr.Follow (rs ++ rest) := by
        cases hregister
        exact ⟨by simp [NoOperator, Expr.productOp?], by simp [NoOperator, Expr.sumOp?]⟩
      rw [List.append_assoc, read?_of_expr h, readIndexed?, Expr.read?_complete h hparen]
      simp only [readRegister?_complete hregister rest]

theorem readAll?_sound {ls : List Lexeme} {operands : List Operand}
    (h : readAll? ls = some operands) : DerivesList ls operands := by
  fun_induction readAll? ls generalizing operands with
  | case1 => cases h
  | case2 ls operand hread =>
      cases h
      exact .last (read?_sound.whole hread)
  | case3 ls operand separator tail hread hcomma ih =>
      obtain ⟨others, hothers, rfl⟩ := Option.map_eq_some_iff.mp h
      obtain ⟨taken, rfl, hderives⟩ := read?_sound hread
      obtain ⟨token, span⟩ := separator
      obtain rfl : token = .symbol .comma := hcomma
      exact .more span hderives (ih hothers)
  | case4 => cases h

theorem readAll?_complete {ls : List Lexeme} {operands : List Operand}
    (h : DerivesList ls operands) : readAll? ls = some operands := by
  induction h with
  | @last ls operand h =>
      have hread := read?_complete.whole h follow_nil
      rw [readAll?]
      split <;> simp_all
  | @more ls rs operand operands comma h _ ih =>
      have hread : read? (ls ++ ⟨.symbol .comma, comma⟩ :: rs) =
          some (operand, ⟨.symbol .comma, comma⟩ :: rs) := read?_complete h (follow_comma comma rs)
      rw [readAll?]
      split <;> simp_all

end Operand

/-! ### Statements -/

theorem Directive.ofName?_eq_some_iff {name : String} {kind : Directive} :
    ofName? name = some kind ↔ name = kind.name := by
  constructor
  · intro h
    have hname := List.find?_some h
    exact (eq_of_beq hname).symm
  · rintro rfl
    cases kind <;> decide

namespace Statement

/-- A mnemonic with operands is a statement of its own, that of the rules. -/
theorem derives_ofMnemonic {ls : List Lexeme} {operands : List Operand} (name : Name)
    (h : Operand.DerivesArguments ls operands) :
    (ofMnemonic name operands).Derives (⟨.ident name.text, name.span⟩ :: ls) := by
  unfold ofMnemonic
  split
  · next kind hkind => exact .directive name kind (Directive.ofName?_eq_some_iff.mp hkind) h
  · next hnone =>
      refine .instruction name (fun kind hname => ?_) h
      rw [Directive.ofName?_eq_some_iff.mpr hname] at hnone
      cases hnone

theorem ofMnemonic_of_directive {name : Name} {kind : Directive} (operands : List Operand)
    (h : name.text = kind.name) :
    ofMnemonic name operands = .directive (mnemonicSpan name operands) kind name.span operands := by
  rw [ofMnemonic, Directive.ofName?_eq_some_iff.mpr h]
  rfl

theorem ofMnemonic_of_instruction {name : Name} (operands : List Operand)
    (h : ∀ kind : Directive, name.text ≠ kind.name) :
    ofMnemonic name operands =
      .instruction (mnemonicSpan name operands) (some name) operands := by
  cases hfound : Directive.ofName? name.text with
  | some kind => exact absurd (Directive.ofName?_eq_some_iff.mp hfound) (h kind)
  | none =>
      rw [ofMnemonic, hfound]
      rfl

theorem isBare_ofMnemonic (name : Name) (operands : List Operand) :
    (ofMnemonic name operands).isBare = false := by
  unfold ofMnemonic
  split <;> rfl

theorem readMnemonic?_sound {name : Name} {ls : List Lexeme} {statement : Statement}
    (h : readMnemonic? name ls = some statement) :
    ∃ operands, statement = ofMnemonic name operands ∧ Operand.DerivesArguments ls operands := by
  unfold readMnemonic? at h
  split at h
  · next hempty =>
      cases h
      exact ⟨[], rfl, List.isEmpty_iff.mp hempty ▸ .none⟩
  · obtain ⟨operands, hall, rfl⟩ := Option.map_eq_some_iff.mp h
    exact ⟨operands, rfl, .some (Operand.readAll?_sound hall)⟩

theorem readMnemonic?_complete {ls : List Lexeme} {operands : List Operand} (name : Name)
    (h : Operand.DerivesArguments ls operands) :
    readMnemonic? name ls = some (ofMnemonic name operands) := by
  cases h with
  | none => rfl
  | some h =>
      have hall := Operand.readAll?_complete h
      have hne : ls.isEmpty = false := by
        cases ls with
        | nil => simp [Operand.readAll?, Operand.read?] at hall
        | cons l tail => rfl
      simp [readMnemonic?, hne, hall]

theorem readBare?_sound {ls : List Lexeme} {statement : Statement}
    (h : readBare? ls = some statement) :
    ∃ operand : Operand, statement = .instruction operand.span none [operand] ∧
      operand.Derives ls := by
  unfold readBare? at h
  split at h
  · next operand hread =>
      cases h
      exact ⟨operand, rfl, Operand.read?_sound.whole hread⟩
  · cases h

theorem readBare?_complete {ls : List Lexeme} {operand : Operand} (h : operand.Derives ls) :
    readBare? ls = some (.instruction operand.span none [operand]) := by
  rw [readBare?, Operand.read?_complete.whole h Operand.follow_nil]

theorem readAssigned?_sound {name : Name} {ls : List Lexeme} {statement : Statement}
    (h : readAssigned? name ls = some statement) :
    ∃ value : Expr, statement = .assignment ⟨name.span.start, value.span.stop⟩ name value ∧
      value.Derives ls := by
  unfold readAssigned? at h
  split at h
  · next value hread =>
      cases h
      exact ⟨value, rfl, Expr.read?_sound.whole hread⟩
  · cases h

theorem readAssigned?_complete {ls : List Lexeme} {value : Expr} (name : Name)
    (h : value.Derives ls) :
    readAssigned? name ls =
      some (.assignment ⟨name.span.start, value.span.stop⟩ name value) := by
  rw [readAssigned?, Expr.read?_complete.whole h Operand.follow_nil.expr]

end Statement

/-! ### Lines -/

namespace Statement

theorem read?_sound {ls : List Lexeme} {statement : Statement} (h : read? ls = some statement) :
    statement.Derives ls := by
  unfold read? at h
  split at h
  · next name span equals rest =>
      obtain ⟨value, rfl, hderives⟩ := readAssigned?_sound h
      exact .assignment ⟨name, span⟩ equals hderives
  · next name span rest _ =>
      cases hmnemonic : readMnemonic? ⟨name, span⟩ rest with
      | some mnemonic =>
          rw [hmnemonic] at h
          obtain rfl : mnemonic = statement := Option.some.inj h
          obtain ⟨operands, rfl, hderives⟩ := readMnemonic?_sound hmnemonic
          exact derives_ofMnemonic ⟨name, span⟩ hderives
      | none =>
          rw [hmnemonic] at h
          obtain ⟨operand, rfl, hderives⟩ := readBare?_sound h
          exact .bare hderives
  · obtain ⟨operand, rfl, hderives⟩ := readBare?_sound h
    exact .bare hderives

/-- A line that begins with a name, and is no assignment. -/
theorem read?_of_name (name : Name) {rest : List Lexeme}
    (h : ∀ tokens, rest.map Lexeme.token ≠ .symbol .equals :: tokens) :
    read? (⟨.ident name.text, name.span⟩ :: rest) =
      (readMnemonic? name rest <|> readBare? (⟨.ident name.text, name.span⟩ :: rest)) := by
  unfold read?
  split
  · next heq =>
      cases heq
      exact absurd rfl (h _)
  · next heq =>
      cases heq
      rfl
  · next hnot => exact absurd rfl (hnot _ _ _)

theorem read?_of_not_name {ls : List Lexeme}
    (h : ∀ name tokens, ls.map Lexeme.token ≠ .ident name :: tokens) : read? ls = readBare? ls := by
  unfold read?
  split
  · exact absurd rfl (h _ _)
  · exact absurd rfl (h _ _)
  · rfl

theorem read?_mnemonic {ls : List Lexeme} {operands : List Operand} (name : Name)
    (h : Operand.DerivesArguments ls operands) :
    read? (⟨.ident name.text, name.span⟩ :: ls) = some (ofMnemonic name operands) := by
  have hequals : ∀ tokens, ls.map Lexeme.token ≠ .symbol .equals :: tokens := by
    intro tokens heq
    obtain ⟨⟨_, equals⟩, rest, rfl, rfl, -⟩ := List.map_eq_cons_iff.mp heq
    have hoperand := h.inOperands List.mem_cons_self
    cases hoperand
  rw [read?_of_name name hequals, readMnemonic?_complete name h]
  rfl

/-- What derives is read, except that a bare operand may give way to a mnemonic form. -/
theorem read?_complete {ls : List Lexeme} {statement : Statement} (h : statement.Derives ls) :
    ∃ found, read? ls = some found ∧
      (found = statement ∨ statement.isBare = true ∧ found.isBare = false) := by
  cases h with
  | assignment name equals h => exact ⟨_, readAssigned?_complete name h, Or.inl rfl⟩
  | @directive _ operands name kind hname h =>
      exact ⟨_, read?_mnemonic name h, Or.inl (ofMnemonic_of_directive operands hname)⟩
  | @instruction _ operands name hname h =>
      exact ⟨_, read?_mnemonic name h, Or.inl (ofMnemonic_of_instruction operands hname)⟩
  | @bare _ operand h =>
      have hbare := readBare?_complete h
      unfold read?
      split
      · have hequals := h.inOperands (List.mem_cons_of_mem _ List.mem_cons_self)
        cases hequals
      · next name span rest _ =>
          cases hmnemonic : readMnemonic? ⟨name, span⟩ rest with
          | some mnemonic =>
              obtain ⟨operands, rfl, -⟩ := readMnemonic?_sound hmnemonic
              exact ⟨_, rfl, Or.inr ⟨rfl, isBare_ofMnemonic _ _⟩⟩
          | none => exact ⟨_, hbare, Or.inl rfl⟩
      · exact ⟨_, hbare, Or.inl rfl⟩

end Statement

theorem readLine?_sound {ls : List Lexeme} {statements : List Statement}
    (h : readLine? ls = some statements) : DerivesLine ls statements := by
  fun_induction readLine? ls generalizing statements with
  | case1 =>
      cases h
      exact .nothing
  | case2 name span colon rest ih =>
      obtain ⟨others, hothers, rfl⟩ := Option.map_eq_some_iff.mp h
      exact .label ⟨name, span⟩ colon (ih hothers)
  | case3 ls =>
      obtain ⟨statement, hread, rfl⟩ := Option.map_eq_some_iff.mp h
      exact .statement (Statement.read?_sound hread)

/-- A line that does not begin with a label. -/
theorem readLine?_of_not_label {ls : List Lexeme} (hne : ls ≠ [])
    (h : ∀ name tokens, ls.map Lexeme.token ≠ .ident name :: .symbol .colon :: tokens) :
    readLine? ls = (Statement.read? ls).map ([·]) := by
  unfold readLine?
  split
  · exact absurd rfl hne
  · exact absurd rfl (h _ _)
  · rfl

theorem readLine?_complete {ls : List Lexeme} {statements : List Statement}
    (h : DerivesLine ls statements) :
    ∃ found, readLine? ls = some found ∧
      (found = statements ∨
        statements.any Statement.isBare = true ∧ found.any Statement.isBare = false) := by
  induction h with
  | nothing => exact ⟨[], rfl, Or.inl rfl⟩
  | @statement ls statement h =>
      obtain ⟨found, hread, hfound⟩ := Statement.read?_complete h
      have hne : ls ≠ [] := by
        rintro rfl
        cases hread
      have hlabel : ∀ name tokens,
          ls.map Lexeme.token ≠ .ident name :: .symbol .colon :: tokens := by
        intro name tokens heq
        refine h.colon_not_mem ?_
        rw [heq]
        exact List.mem_cons_of_mem _ List.mem_cons_self
      refine ⟨[found], by rw [readLine?_of_not_label hne hlabel, hread]; rfl, ?_⟩
      simpa using hfound
  | @label ls statements name colon _ ih =>
      obtain ⟨found, hread, hfound⟩ := ih
      refine ⟨.label ⟨name.span.start, colon.stop⟩ name :: found, by rw [readLine?, hread]; rfl, ?_⟩
      simpa [Statement.isBare] using hfound

theorem parseLine_eq_ok {ls : List Lexeme} {statements : List Statement} :
    parseLine ls = .ok statements ↔ readLine? ls = some statements := by
  unfold parseLine
  cases readLine? ls <;> simp

/-- **A line is read exactly if it derives, and as it derives.** Where a line derives with a
mnemonic form and with a bare operand, the mnemonic form is read; every other line derives once.
What has been read writes out as the tokens of the line. -/
theorem parseLine_derives (ls : List Lexeme) :
    ((∃ statements, parseLine ls = .ok statements) ↔ ∃ statements, DerivesLine ls statements) ∧
    ∀ statements,
      (parseLine ls = .ok statements ↔
        DerivesLine ls statements ∧
          ∀ others, DerivesLine ls others →
            statements.any Statement.isBare = true → others.any Statement.isBare = true) ∧
      (parseLine ls = .ok statements →
        statements.flatMap Statement.tokens = plainTokens ls) := by
  simp only [parseLine_eq_ok]
  refine ⟨⟨?_, ?_⟩, fun statements => ⟨⟨fun h => ⟨readLine?_sound h, ?_⟩, ?_⟩, ?_⟩⟩
  · rintro ⟨statements, h⟩
    exact ⟨statements, readLine?_sound h⟩
  · rintro ⟨statements, h⟩
    obtain ⟨found, hread, -⟩ := readLine?_complete h
    exact ⟨found, hread⟩
  · intro others hothers hbare
    obtain ⟨found, hread, hfound⟩ := readLine?_complete hothers
    obtain rfl : found = statements := Option.some.inj (hread.symm.trans h)
    rcases hfound with rfl | ⟨hothers, -⟩
    · exact hbare
    · exact hothers
  · rintro ⟨hderives, hprefer⟩
    obtain ⟨found, hread, rfl | ⟨hbare, hnot⟩⟩ := readLine?_complete hderives
    · exact hread
    · -- a mnemonic form was read, so the bare operand was not to be preferred
      have := hprefer found (readLine?_sound hread) hbare
      rw [hnot] at this
      cases this
  · intro h
    exact (readLine?_sound h).tokens_eq

/-- `A - B` derives as a difference and as a mnemonic with a negation, and is read as the latter. -/
theorem parseLine_derives_overlap :
    let a : Span := ⟨⟨0, 0, 0⟩, ⟨1, 0, 1⟩⟩
    let sign : Span := ⟨⟨2, 0, 2⟩, ⟨3, 0, 3⟩⟩
    let b : Span := ⟨⟨4, 0, 4⟩, ⟨5, 0, 5⟩⟩
    let ls : List Lexeme := [⟨.ident "A", a⟩, ⟨.symbol .minus, sign⟩, ⟨.ident "B", b⟩]
    let span : Span := ⟨a.start, b.stop⟩
    DerivesLine ls
        [.instruction span none [.absolute span (.binary .sub (.symbol a "A") (.symbol b "B"))]] ∧
      parseLine ls =
        .ok [.instruction span (some ⟨"A", a⟩)
          [.absolute ⟨sign.start, b.stop⟩ (.negate sign.start (.symbol b "B"))]] := by
  intro a sign b ls span
  have hleft : (Expr.symbol a "A").Derives [⟨.ident "A", a⟩] := .item (.item (.name a "A"))
  have hdifference : (Expr.binary .sub (.symbol a "A") (.symbol b "B")).Derives ls :=
    .operate hleft rfl (.item (.name b "B"))
  have hnegation : (Expr.negate sign.start (.symbol b "B")).Derives
      [⟨.symbol .minus, sign⟩, ⟨.ident "B", b⟩] :=
    .item (.item (.negate sign (.name b "B")))
  have hmnemonic : DerivesLine ls [.instruction span (some ⟨"A", a⟩)
      [.absolute ⟨sign.start, b.stop⟩ (.negate sign.start (.symbol b "B"))]] :=
    .statement (.instruction ⟨"A", a⟩ (fun kind => by cases kind <;> decide)
      (.some (.last (.absolute hnegation))))
  refine ⟨.statement (.bare (.absolute hdifference)), ?_⟩
  refine ((parseLine_derives ls).2 _).1.mpr ⟨hmnemonic, fun others _ hbare => ?_⟩
  exact absurd hbare (by simp [Statement.isBare])

end RecipeDesk.Assembler
