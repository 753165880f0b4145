import HackAssembler.Proofs.Adjacency
import HackAssembler.Proofs.Delivery

/-! # The kinds of token that errors name

Which tokens can stand next to each other decides which tokens the two readings can miss or find
where they do not belong. An operand is never missing, nor is the parenthesis behind the name of a
label, and neither a number nor the end of the input is ever in the wrong place. -/
namespace HackAssembler

namespace Source

theorem Lexeme.StandsFree.kind_ne {lexeme : Lexeme} (h : lexeme.StandsFree) :
    lexeme.kind ≠ .endOfInput ∧ lexeme.kind ≠ .number := by
  cases lexeme <;> first | cases h; done | simp [kind]

section Adjoined
variable {broken : Option LexError} {tokens : List Token} {head : Token}

/-- Neither the end of the input nor a number comes first. -/
theorem Adjoined.head_kind_ne (h : Adjoined broken (head :: tokens)) :
    head.lexeme.kind ≠ .endOfInput ∧ head.lexeme.kind ≠ .number := by
  cases h with
  | free hfree => exact hfree.kind_ne
  | _ => simp [Lexeme.kind]

theorem Adjoined.tail (h : Adjoined broken (head :: tokens)) (hat : head.lexeme ≠ .atSign) :
    Adjoined broken tokens := by
  cases h with
  | broken => exact absurd rfl hat
  | load => exact absurd rfl hat
  | name _ hrest => exact hrest
  | free _ hrest => exact hrest

/-- Behind a sign comes its operand, unless a fault keeps it from being read. -/
theorem Adjoined.behind_atSign {pos : Nat} (h : Adjoined broken (⟨.atSign, pos⟩ :: tokens)) :
    broken ≠ none ∧ tokens = [] ∨ ∃ lexeme rest, tokens = ⟨lexeme, pos + 1⟩ :: rest ∧
      IsOperand lexeme ∧ Adjoined broken rest := by
  cases h with
  | broken hbroken => exact .inl ⟨hbroken, rfl⟩
  | load hoperand hrest => exact .inr ⟨_, _, rfl, hoperand, hrest⟩
  | free hfree => cases hfree

/-- Behind a symbol that is no operand comes a closing parenthesis. -/
theorem Adjoined.behind_symbol {name : String} {pos : Nat}
    (h : Adjoined broken (⟨.symbol name, pos⟩ :: tokens)) :
    ∃ rest, tokens = ⟨.closeParen, pos + name.length⟩ :: rest := by
  cases h with
  | name => exact ⟨_, rfl⟩
  | free hfree => cases hfree

end Adjoined

end Source

namespace Assembly

open Source Instruction Output

/-- Whether a fault can come up at all, by the kinds of token that it names. -/
def SourceFault.CanArise : SourceFault → Prop
  | .unexpectedToken expected found =>
    expected ≠ .operand ∧ expected ≠ .token .closeParen ∧ found ≠ .endOfInput ∧ found ≠ .number
  | .statementStart found => found ∈ [Kind.closeParen, .equal, .semicolon, .symbol]
  | .valueTooLarge _ | .mnemonic _ | .label _ => True

def Error.CanArise : Error → Prop
  | .source fault _ => fault.CanArise
  | .lexical _ | .sink _ => True

theorem canArise_unexpected {broken : Option LexError} {head : Token} {tokens : List Token}
    (h : Adjoined broken (head :: tokens)) {kind : Kind} (hkind : kind ≠ .closeParen) (pos : Nat) :
    Error.CanArise (unexpected (.token kind) head.lexeme.kind pos) :=
  ⟨nofun, by simpa using hkind, h.head_kind_ne⟩

/-! ### The first reading -/

namespace Outline

variable {ahead : Option LexError} {line : Line} {error : Error}

/-- Behind the name of a label there is always its parenthesis, so of the two tokens that a
declaration can miss only the name is ever missed. -/
theorem canArise_of_ofLine (hline : line.Orderly) (h : ofLine ahead line = .error error) :
    error.CanArise := by
  obtain ⟨hadjoined, hinside⟩ := hline
  cases fails_of_ofLine h with
  | fault => trivial
  | ahead => trivial
  | @start first hat hfragment hopen rest =>
    obtain ⟨hend, hnumber⟩ := hadjoined.head_kind_ne
    have hnewline := hinside first List.mem_cons_self
    rcases first with ⟨lexeme, pos⟩
    cases lexeme <;> simp_all [Error.CanArise, SourceFault.CanArise, Lexeme.kind]
  | nameless => exact ⟨nofun, by simp, nofun, nofun⟩
  | misnamed => exact canArise_unexpected (hadjoined.tail nofun) (by decide) _
  | unclosed =>
    obtain ⟨_, hrest⟩ := (hadjoined.tail nofun).behind_symbol
    cases hrest
  | misclosed _ _ _ hclose =>
    obtain ⟨_, hrest⟩ := (hadjoined.tail nofun).behind_symbol
    obtain ⟨rfl, -⟩ := List.cons.inj hrest
    exact absurd rfl hclose
  | behind =>
    exact canArise_unexpected (((hadjoined.tail nofun).tail nofun).tail nofun) (by decide) _

end Outline

theorem canArise_of_bindLabels {lines : List Line} (hlines : ∀ line ∈ lines, line.Orderly)
    {table : SymbolTable} {address : Nat} {error : Error}
    (h : bindLabels table address lines = .error error) : error.CanArise := by
  induction lines generalizing table address with
  | nil => cases h
  | cons line rest ih =>
    obtain ⟨hline, hrest⟩ := List.forall_mem_cons.mp hlines
    rw [bindLabels] at h
    split at h
    · next herror =>
      cases h
      exact Outline.canArise_of_ofLine hline herror
    · exact ih hrest h
    · exact ih hrest h
    · split at h
      · cases h
        trivial
      · exact ih hrest h

/-! ### The second reading -/

theorem canArise_located {α : Type} (pos : Nat) (result : Except MnemonicError α) :
    Yields Error.CanArise (fun value => result = .ok value) (located pos result) := by
  cases result with
  | error error => trivial
  | ok value => exact rfl

namespace Statement

def LeavesAdjoined (read : Statement × Line) : Prop :=
  Adjoined read.2.fault? read.2.tokens

variable {line : Line}

/-- No jump is written with a sign, so the tokens behind the jump are no operand. -/
theorem canArise_readJump (hline : Adjoined line.fault? line.tokens) (dest : Destination)
    (comp : Computation) : Yields Error.CanArise LeavesAdjoined (readJump dest comp line) := by
  unfold readJump
  split
  · next jump rest =>
    refine (canArise_located _ _).bind fun value hvalue => ?_
    refine Adjoined.tail (hline.tail nofun) fun hat => ?_
    rw [hat] at hvalue
    cases hvalue
  · exact (canArise_located _ _).bind fun value _ => .nil
  · trivial
  · exact hline

theorem canArise_readAssigned (hline : Adjoined line.fault? line.tokens) (dest : String)
    (start : Nat) : Yields Error.CanArise LeavesAdjoined (readAssigned dest start line) := by
  unfold readAssigned
  split
  · refine (canArise_located _ _).bind fun comp _ => ?_
    refine (canArise_located _ _).bind fun destination _ => ?_
    exact canArise_readJump (hline.tail nofun) destination comp
  · next found rest _ => exact canArise_unexpected hline (by decide) found.pos
  · exact ⟨nofun, by simp, nofun, nofun⟩
  · trivial

theorem canArise_readCompute (hline : Adjoined line.fault? line.tokens) (word : String)
    (start : Nat) : Yields Error.CanArise LeavesAdjoined (readCompute word start line) := by
  unfold readCompute
  split
  · exact canArise_readAssigned (hline.tail nofun) word start
  · exact (canArise_located _ _).bind fun comp _ => canArise_readJump hline .none comp

/-- Behind a sign its operand is never missing. -/
theorem canArise_readLoad {pos : Nat}
    (hline : Adjoined line.fault? (⟨.atSign, pos⟩ :: line.tokens)) :
    Yields Error.CanArise LeavesAdjoined (readLoad line) := by
  have hbehind := hline.behind_atSign
  unfold readLoad
  split
  · obtain ⟨_, hnil⟩ | ⟨_, _, hcons, _, hrest⟩ := hbehind
    · cases hnil
    · cases hcons
      exact hrest
  · obtain ⟨_, hnil⟩ | ⟨_, _, hcons, _, hrest⟩ := hbehind
    · cases hnil
    · cases hcons
      exact hrest
  · next found rest hsymbol hnumber =>
    obtain ⟨_, hnil⟩ | ⟨lexeme, _, hcons, hoperand, _⟩ := hbehind
    · cases hnil
    · cases hcons
      cases hoperand with
      | number => exact absurd rfl (hnumber _ _)
      | symbol => exact absurd rfl (hsymbol _ _)
  · obtain ⟨hbroken, _⟩ | ⟨_, _, hcons, _⟩ := hbehind
    · exact absurd rfl hbroken
    · cases hcons
  · trivial

theorem canArise_ofLine (hline : line.Orderly) :
    Yields Error.CanArise (fun read? => ∀ read ∈ read?, LeavesAdjoined read) (ofLine line) := by
  obtain ⟨hadjoined, hinside⟩ := hline
  unfold ofLine
  split
  · rintro _ ⟨⟩
  · trivial
  · rintro _ ⟨⟩
  · exact (canArise_readLoad hadjoined).map_some
  · exact (canArise_readCompute (hadjoined.tail nofun) _ _).map_some
  · next found rest hopen hat hfragment =>
    obtain ⟨hend, hnumber⟩ := hadjoined.head_kind_ne
    have hnewline := hinside found List.mem_cons_self
    rcases found with ⟨lexeme, pos⟩
    cases lexeme <;> simp_all [Yields, Error.CanArise, SourceFault.CanArise, Lexeme.kind]

end Statement

theorem canArise_of_requireNewline {line : Line} {error : Error}
    (hline : Adjoined line.fault? line.tokens) (h : requireNewline line = .error error) :
    error.CanArise := by
  cases line with
  | newline => cases h
  | fault =>
    cases h
    trivial
  | token found rest =>
    cases h
    exact canArise_unexpected hline (by decide) found.pos

theorem canArise_of_emit {lines : List Line} (hlines : ∀ line ∈ lines, line.Orderly)
    {table : SymbolTable} {words : Array Word} {error : Error}
    (h : (emit table words lines).outcome = .error error) : error.CanArise := by
  induction lines generalizing table words with
  | nil => cases h
  | cons line rest ih =>
    obtain ⟨hline, hrest⟩ := List.forall_mem_cons.mp hlines
    have hread := Statement.canArise_ofLine hline
    rw [emit] at h
    split at h
    · next herror =>
      cases h
      exact hread.of_error herror
    · exact ih hrest h
    · next statement after hstatement =>
      have hleft : Adjoined after.fault? after.tokens := hread.of_ok hstatement _ rfl
      split at h
      · next herror =>
        cases h
        obtain ⟨_, _, _, rfl⟩ := Statement.error_of_resolve herror
        trivial
      · split at h
        · next herror =>
          cases h
          exact canArise_of_requireNewline hleft herror
        · exact ih hrest h

theorem canArise_of_ofSource {code : String} {error : Error}
    (h : (Emission.ofSource code).outcome = .error error) : error.CanArise := by
  have hlines := @orderly_of_mem_ofSource code
  simp only [Emission.ofSource] at h
  split at h
  · next hfirst =>
    cases h
    exact canArise_of_bindLabels (fun _ => hlines) hfirst
  · exact canArise_of_emit (fun _ => hlines) h

/-- The tokens of a source stand next to each other as they may, and so no error of a source, to
whatever sink it is delivered, misses an operand or the parenthesis behind the name of a label, or
finds a number or the end of the input in the wrong place. -/
theorem neighbours_and_errors (code : String) :
    (∀ tokens, (Lexer.ofString code).tokens = .ok tokens → Adjacent tokens) ∧
      ∀ (m : Type → Type) [Monad m] [LawfulMonad m] (σ : Type) [Sink m σ] (sink : σ),
        SatisfiesM (m := m) (fun result : Except Error SymbolTable × σ =>
            ∀ error, result.1 = .error error → error.CanArise)
          (deliver (Emission.ofSource code) sink) := by
  refine ⟨fun _ => adjacent_of_tokens, fun m _ _ σ _ sink => ?_⟩
  refine (satisfiesM_deliver_errors _ sink).imp fun {result} hresult error herror => ?_
  rcases hresult error herror with houtcome | ⟨fault, rfl⟩
  · exact canArise_of_ofSource houtcome
  · trivial

theorem neighbours_and_errors_unfinished :
    (Lexer.ofString "(A)\n@5 D").tokens =
        .ok [⟨.openParen, 0⟩, ⟨.symbol "A", 1⟩, ⟨.closeParen, 2⟩, ⟨.newline, 3⟩, ⟨.atSign, 4⟩,
          ⟨.number "5", 5⟩, ⟨.fragment "D", 7⟩, ⟨.newline, 8⟩, ⟨.endOfInput, 9⟩] ∧
      Adjacent [⟨.openParen, 0⟩, ⟨.symbol "A", 1⟩, ⟨.closeParen, 2⟩, ⟨.newline, 3⟩, ⟨.atSign, 4⟩,
        ⟨.number "5", 5⟩, ⟨.fragment "D", 7⟩, ⟨.newline, 8⟩, ⟨.endOfInput, 9⟩] ∧
      assemble "(A)\n@5 D" = .error (unexpected (.token .newline) .fragment 7) ∧
      SatisfiesM (m := Id) (fun result : Except Error SymbolTable × MemorySink =>
          ∀ error, result.1 = .error error → error.CanArise)
        (deliver (Emission.ofSource "(A)\n@5 D") MemorySink.empty) := by
  have htokens : (Lexer.ofString "(A)\n@5 D").tokens =
      .ok [⟨.openParen, 0⟩, ⟨.symbol "A", 1⟩, ⟨.closeParen, 2⟩, ⟨.newline, 3⟩, ⟨.atSign, 4⟩,
        ⟨.number "5", 5⟩, ⟨.fragment "D", 7⟩, ⟨.newline, 8⟩, ⟨.endOfInput, 9⟩] := by
    decide +kernel
  have herror : assemble "(A)\n@5 D" = .error (unexpected (.token .newline) .fragment 7) := by
    decide +kernel
  exact ⟨htokens, (neighbours_and_errors _).1 _ htokens, herror,
    (neighbours_and_errors _).2 Id MemorySink _⟩

end Assembly

end HackAssembler
