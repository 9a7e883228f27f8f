import ChainLab.Json
import ChainLab.Proofs.SpelledText

/-!
# A printed value is read back

What is said about the tokens of a text and about the value of tokens holds wherever they stand:
after any tokens and before any text, inside any arrays and objects. So the statements for the parts
of a value add up to the one for the value.
-/

namespace ChainLab.Json

/-! ### From text to tokens -/

namespace Lexer

def run (lexer : Lexer) (text : List UInt8) : Option (List Token) :=
  (text.foldlM step lexer).bind finish?

theorem run_cons (lexer : Lexer) (b : UInt8) (text : List UInt8) :
    lexer.run (b :: text) = (lexer.step b).bind fun next => next.run text := by
  rw [run, List.foldlM_cons]
  exact Option.bind_assoc _ _ _

theorem run_of_step {lexer next : Lexer} {b : UInt8} (h : lexer.step b = some next)
    (text : List UInt8) : lexer.run (b :: text) = next.run text := by
  rw [run_cons, h, Option.bind_some]

end Lexer

open Lexer

/-- What comes first here ends a word. -/
def Ends : List UInt8 → Prop
  | [] => True
  | b :: _ => isWordByte b = false

/-- The text is cut into the tokens, whatever was read before it. -/
def Spells (text : List UInt8) (tokens : List Token) : Prop :=
  ∀ (read : List Token) (rest : List UInt8), Ends rest →
    run ⟨.between, read⟩ (text ++ rest) = run ⟨.between, tokens.reverse ++ read⟩ rest

theorem Spells.nil : Spells [] [] := fun _ _ _ => rfl

theorem Spells.append {text text' : List UInt8} {tokens tokens' : List Token}
    (h : Spells text tokens) (h' : Spells text' tokens')
    (ends : ∀ rest, Ends rest → Ends (text' ++ rest)) :
    Spells (text ++ text') (tokens ++ tokens') := by
  intro read rest done
  rw [List.append_assoc, h read _ (ends rest done), h' _ rest done, List.reverse_append,
    List.append_assoc]

/-- A byte that is a token by itself. -/
theorem Spells.mark {text : List UInt8} {tokens : List Token} (h : Spells text tokens) (b : UInt8)
    (token : Token)
    (mark : ∀ read, Lexer.step ⟨.between, read⟩ b = some ⟨.between, token :: read⟩) :
    Spells (b :: text) (token :: tokens) := by
  intro read rest done
  rw [List.cons_append, run_of_step (mark read), h _ rest done, List.reverse_cons,
    List.append_assoc, List.singleton_append]

theorem isWordByte_of_isDigit {b : UInt8} (h : isDigit b = true) : isWordByte b = true := by
  simp only [isWordByte, h, Bool.true_or]

theorem step_wordByte {b : UInt8} (h : isWordByte b = true) (tokens : List Token) :
    Lexer.step ⟨.between, tokens⟩ b = some ⟨.word [b], tokens⟩ := by
  have notBlank : isBlank b = false := by
    rw [Bool.eq_false_iff]
    intro blank
    simp only [isBlank, Bool.or_eq_true, decide_eq_true_eq] at blank
    rcases blank with ((rfl | rfl) | rfl) | rfl <;> cases h
  have notQuote : b ≠ 34 := by
    rintro rfl
    cases h
  simp only [Lexer.step, Lexer.begin, notBlank, if_neg Bool.false_ne_true, if_neg notQuote,
    if_pos h]

theorem run_word {word : List UInt8} (letters : ∀ b ∈ word, isWordByte b = true)
    (read : List UInt8) (tokens : List Token) (rest : List UInt8) :
    run ⟨.word read, tokens⟩ (word ++ rest) = run ⟨.word (word.reverse ++ read), tokens⟩ rest := by
  induction word generalizing read with
  | nil => rfl
  | cons b word ih =>
    rw [List.forall_mem_cons] at letters
    have step : Lexer.step ⟨.word read, tokens⟩ b = some ⟨.word (b :: read), tokens⟩ :=
      if_pos letters.1
    rw [List.cons_append, run_of_step step, ih letters.2, List.reverse_cons, List.append_assoc,
      List.singleton_append]

theorem run_wordEnd {read : List UInt8} {token : Token}
    (h : Token.ofWord? read.reverse = some token) {rest : List UInt8} (done : Ends rest)
    (tokens : List Token) :
    run ⟨.word read, tokens⟩ rest = run ⟨.between, token :: tokens⟩ rest := by
  cases rest with
  | nil =>
    change (Token.ofWord? read.reverse).map _ = _
    rw [h]
    rfl
  | cons b rest =>
    have ends : isWordByte b = false := done
    have step : Lexer.step ⟨.word read, tokens⟩ b = Lexer.step ⟨.between, token :: tokens⟩ b := by
      simp only [Lexer.step, ends, h, Option.bind_some, if_neg Bool.false_ne_true]
    rw [run_cons, run_cons, step]

theorem ofWord?_nil : Token.ofWord? [] = none := by
  simp only [Token.ofWord?, toList_eq_toList_data]
  rfl

theorem spells_word {word : List UInt8} {token : Token} (letters : ∀ b ∈ word, isWordByte b = true)
    (h : Token.ofWord? word = some token) : Spells word [token] := by
  intro read rest done
  cases word with
  | nil => cases ofWord?_nil.symm.trans h
  | cons b word =>
    rw [List.forall_mem_cons] at letters
    have whole : (word.reverse ++ [b]).reverse = b :: word := by simp
    rw [List.cons_append, run_of_step (step_wordByte letters.1 read), run_word letters.2]
    exact run_wordEnd (by rwa [whole]) done read

/-- The bytes go into an open string as they are. -/
def Quotable (body : List UInt8) : Prop :=
  ∀ (read : List UInt8) (tokens : List Token) (rest : List UInt8),
    run ⟨.string read, tokens⟩ (body ++ rest) = run ⟨.string (body.reverse ++ read), tokens⟩ rest

theorem spells_quote {body : List UInt8} (h : Quotable body) :
    Spells (quote body) [.string body] := by
  intro read rest _
  have opened : Lexer.step ⟨.between, read⟩ 34 = some ⟨.string [], read⟩ := rfl
  have closed (body : List UInt8) : Lexer.step ⟨.string body, read⟩ 34 =
      some ⟨.between, .string body.reverse :: read⟩ := rfl
  rw [quote, List.cons_append, List.cons_append, List.append_assoc, run_of_step opened, h,
    List.singleton_append, run_of_step (closed _), List.append_nil, List.reverse_reverse]
  rfl

theorem Quotable.append {body body' : List UInt8} (h : Quotable body) (h' : Quotable body') :
    Quotable (body ++ body') := by
  intro read tokens rest
  rw [List.append_assoc, h, h', List.reverse_append, List.append_assoc]

/-- A letter that stands for a byte may follow a backslash, and it is not the mark of a code. -/
theorem letter_of_letterEscape? {l b : UInt8} (meant : letterEscape? l = some b) :
    l ≠ 117 ∧ [34, 92, 47, 98, 102, 110, 114, 116].contains l = true := by
  unfold letterEscape? at meant
  split at meant
  case isTrue same =>
    rcases same with rfl | rfl | rfl <;> decide
  iterate 5
    split at meant
    · subst l
      decide
  cases meant

theorem digits_of_codeUnit? {a b c d : UInt8} {n : Nat} (h : codeUnit? a b c d = some n) :
    (Hex.digit? a).isSome ∧ (Hex.digit? b).isSome ∧ (Hex.digit? c).isSome ∧
      (Hex.digit? d).isSome := by
  simp only [codeUnit?, List.mapM_cons, List.mapM_nil, Option.bind_eq_bind,
    Option.bind_eq_some_iff] at h
  obtain ⟨_, ⟨_, ha, _, ⟨_, hb, _, ⟨_, hc, _, ⟨_, hd, -⟩, -⟩, -⟩, -⟩, -⟩ := h
  simp [ha, hb, hc, hd]

theorem Escaped.quotable {b : UInt8} {written : List UInt8} (h : Escaped b written) :
    Quotable written := by
  intro read tokens rest
  cases h with
  | plain quote backslash printable =>
    have step : Lexer.step ⟨.string read, tokens⟩ b = some ⟨.string (b :: read), tokens⟩ := by
      simp only [Lexer.step, if_neg quote, if_neg backslash, if_neg printable]
    exact run_of_step step rest
  | @letter l meant =>
    obtain ⟨noCode, letter⟩ := letter_of_letterEscape? meant
    have opened : Lexer.step ⟨.string read, tokens⟩ 92 = some ⟨.escape (92 :: read), tokens⟩ := rfl
    have closed : Lexer.step ⟨.escape (92 :: read), tokens⟩ l =
        some ⟨.string (l :: 92 :: read), tokens⟩ := by
      simp only [Lexer.step, if_neg noCode, if_pos letter]
    exact (run_of_step opened (l :: rest)).trans (run_of_step closed rest)
  | @code high low control digits =>
    obtain ⟨-, -, digitHigh, digitLow⟩ := digits_of_codeUnit? digits
    have opened : run ⟨.string read, tokens⟩ (92 :: 117 :: 48 :: 48 :: high :: low :: rest) =
        run ⟨.hex 2 (48 :: 48 :: 117 :: 92 :: read), tokens⟩ (high :: low :: rest) := rfl
    have digit {b : UInt8} (h : (Hex.digit? b).isSome) (missing : Nat) (read : List UInt8) :
        Lexer.step ⟨.hex missing read, tokens⟩ b =
          if missing ≤ 1 then some ⟨.string (b :: read), tokens⟩
          else some ⟨.hex (missing - 1) (b :: read), tokens⟩ := by
      simp only [Lexer.step, Option.isNone_eq_false_iff.mpr h, if_neg Bool.false_ne_true]
    exact opened.trans ((run_of_step (digit digitHigh 2 _) _).trans
      (run_of_step (digit digitLow 1 _) rest))

theorem quotable_escape (text : String) : Quotable (escape text) := by
  unfold escape
  induction text.toUTF8.toList with
  | nil => exact fun _ _ _ => rfl
  | cons b rest ih => exact (escaped_escapeByte b).quotable.append ih

/-! ### From tokens to a value -/

open Reader

/-- The tokens are the value, wherever a value is due. -/
def Reads (tokens : List Token) (value : Json) : Prop :=
  ∀ (enclosing : List Context) (rest : List Token),
    (tokens ++ rest).foldlM Reader.step ⟨enclosing, .value⟩ =
      rest.foldlM Reader.step (place value enclosing)

/-- The tokens are items with commas between them, wherever an item of an array is due. -/
def ReadsItems (tokens : List Token) (items : List Json) : Prop :=
  ∀ (enclosing : List Context) (done : List Json) (rest : List Token),
    (tokens ++ rest).foldlM Reader.step ⟨.items done :: enclosing, .value⟩ =
      rest.foldlM Reader.step ⟨enclosing, .afterItem (items.reverse ++ done)⟩

/-- The tokens are members with commas between them, wherever a member of an object is due. -/
def ReadsMembers (tokens : List Token) (members : List (List UInt8 × Json)) : Prop :=
  ∀ (enclosing : List Context) (done : List (List UInt8 × Json)) (rest : List Token),
    (tokens ++ rest).foldlM Reader.step ⟨enclosing, .name done⟩ =
      rest.foldlM Reader.step ⟨enclosing, .afterMember (members.reverse ++ done)⟩

theorem foldlM_of_step {reader next : Reader} {token : Token} (h : reader.step token = some next)
    (rest : List Token) :
    (token :: rest).foldlM Reader.step reader = rest.foldlM Reader.step next := by
  rw [List.foldlM_cons, h]
  rfl

theorem reads_token {token : Token} {value : Json}
    (h : ∀ enclosing, readValue enclosing token = some (place value enclosing)) :
    Reads [token] value := by
  intro enclosing rest
  have step : Reader.step ⟨enclosing, .value⟩ token = some (place value enclosing) := h enclosing
  exact foldlM_of_step step rest

theorem Reads.last {tokens : List Token} {item : Json} (h : Reads tokens item) :
    ReadsItems tokens [item] :=
  fun enclosing done rest => h (.items done :: enclosing) rest

theorem Reads.cons {tokens tokens' : List Token} {item : Json} {items : List Json}
    (h : Reads tokens item) (h' : ReadsItems tokens' items) :
    ReadsItems (tokens ++ .comma :: tokens') (item :: items) := by
  intro enclosing done rest
  have comma : Reader.step ⟨enclosing, .afterItem (item :: done)⟩ .comma =
      some ⟨.items (item :: done) :: enclosing, .value⟩ := rfl
  rw [List.append_assoc, h, List.cons_append]
  refine (foldlM_of_step comma _).trans ?_
  rw [h', List.reverse_cons, List.append_assoc, List.singleton_append]

/-- No item starts with the end of the array. -/
theorem ReadsItems.exists_cons {tokens : List Token} {items : List Json}
    (h : ReadsItems tokens items) : ∃ token rest, tokens = token :: rest ∧ token ≠ .closeArray := by
  have read := h [] [] []
  cases tokens with
  | nil => cases read
  | cons token rest =>
    refine ⟨token, rest, rfl, ?_⟩
    rintro rfl
    cases read

theorem ReadsItems.array {tokens : List Token} {items : List Json} (h : ReadsItems tokens items) :
    Reads (.openArray :: (tokens ++ [.closeArray])) (.array items) := by
  intro enclosing rest
  obtain ⟨token, tokens, rfl, other⟩ := h.exists_cons
  have first : Reader.step ⟨enclosing, .firstItem⟩ token =
      Reader.step ⟨.items [] :: enclosing, .value⟩ token := by
    cases token <;> first | rfl | exact absurd rfl other
  have closed : Reader.step ⟨enclosing, .afterItem (items.reverse ++ [])⟩ .closeArray =
      some (place (.array items) enclosing) := by
    simp [Reader.step]
  have whole := h enclosing [] (.closeArray :: rest)
  rw [foldlM_of_step closed, List.cons_append, List.foldlM_cons, ← first] at whole
  rw [List.cons_append, List.append_assoc, List.singleton_append]
  have opened : Reader.step ⟨enclosing, .value⟩ .openArray = some ⟨enclosing, .firstItem⟩ := rfl
  exact (foldlM_of_step opened _).trans whole

theorem Reads.lastMember {tokens : List Token} {value : Json} (h : Reads tokens value)
    (name : List UInt8) : ReadsMembers (.string name :: .colon :: tokens) [(name, value)] :=
  fun enclosing done rest => h (.member done name :: enclosing) rest

theorem Reads.consMember {tokens tokens' : List Token} {value : Json}
    {members : List (List UInt8 × Json)} (h : Reads tokens value) (name : List UInt8)
    (h' : ReadsMembers tokens' members) :
    ReadsMembers (.string name :: .colon :: (tokens ++ .comma :: tokens'))
      ((name, value) :: members) := by
  intro enclosing done rest
  have comma : Reader.step ⟨enclosing, .afterMember ((name, value) :: done)⟩ .comma =
      some ⟨enclosing, .name ((name, value) :: done)⟩ := rfl
  have first := h (.member done name :: enclosing) (.comma :: (tokens' ++ rest))
  refine (Eq.trans ?_ first).trans ?_
  · rw [List.cons_append, List.cons_append, List.append_assoc]
    rfl
  · refine (foldlM_of_step comma _).trans ?_
    rw [h', List.reverse_cons, List.append_assoc, List.singleton_append]

/-- A member starts with its name. -/
theorem ReadsMembers.exists_cons {tokens : List Token} {members : List (List UInt8 × Json)}
    (h : ReadsMembers tokens members) : ∃ name rest, tokens = .string name :: rest := by
  have read := h [] [] []
  cases tokens with
  | nil => cases read
  | cons token rest =>
    cases token with
    | string name => exact ⟨name, rest, rfl⟩
    | _ => cases read

theorem ReadsMembers.object {tokens : List Token} {members : List (List UInt8 × Json)}
    (h : ReadsMembers tokens members) :
    Reads (.openObject :: (tokens ++ [.closeObject])) (.object members) := by
  intro enclosing rest
  obtain ⟨name, tokens, rfl⟩ := h.exists_cons
  have closed : Reader.step ⟨enclosing, .afterMember (members.reverse ++ [])⟩ .closeObject =
      some (place (.object members) enclosing) := by
    simp [Reader.step]
  have whole := h enclosing [] (.closeObject :: rest)
  rw [foldlM_of_step closed] at whole
  rw [List.cons_append, List.append_assoc, List.singleton_append]
  have opened : Reader.step ⟨enclosing, .value⟩ .openObject = some ⟨enclosing, .firstName⟩ := rfl
  exact (foldlM_of_step opened _).trans whole

/-! ### From a value to its text and back -/

/-- Numbers are spelled as numbers, and strings can stand between quotes. -/
inductive Printable : Json → Prop where
  | null : Printable .null
  | bool (value : Bool) : Printable (.bool value)
  | number {lexeme : List UInt8} (letters : ∀ b ∈ lexeme, isWordByte b = true)
    (word : Token.ofWord? lexeme = some (.number lexeme)) : Printable (.number lexeme)
  | string {body : List UInt8} (quotable : Quotable body) : Printable (.string body)
  | array {items : List Json} (printable : ∀ item ∈ items, Printable item) :
    Printable (.array items)
  | object {members : List (List UInt8 × Json)} (names : ∀ member ∈ members, Quotable member.1)
    (values : ∀ member ∈ members, Printable member.2) : Printable (.object members)

/-- There are tokens between the text and the value. -/
def Linked (text : List UInt8) (value : Json) : Prop :=
  ∃ tokens, Spells text tokens ∧ Reads tokens value

theorem exists_items {item : Json} {items : List Json}
    (linked : ∀ value ∈ item :: items, Linked (print value) value) :
    ∃ tokens, Spells (printItems (item :: items)) tokens ∧ ReadsItems tokens (item :: items) := by
  induction items generalizing item with
  | nil =>
    obtain ⟨tokens, spells, reads⟩ := linked item List.mem_cons_self
    exact ⟨tokens, spells, reads.last⟩
  | cons next items ih =>
    obtain ⟨first, rest⟩ := List.forall_mem_cons.mp linked
    obtain ⟨tokens, spells, reads⟩ := first
    obtain ⟨tokens', spells', reads'⟩ := ih rest
    refine ⟨tokens ++ .comma :: tokens', ?_, reads.cons reads'⟩
    exact spells.append (spells'.mark 44 .comma fun _ => rfl) fun _ _ => rfl

theorem exists_members {member : List UInt8 × Json} {members : List (List UInt8 × Json)}
    (names : ∀ m ∈ member :: members, Quotable m.1)
    (linked : ∀ m ∈ member :: members, Linked (print m.2) m.2) :
    ∃ tokens, Spells (printFields (member :: members)) tokens ∧
      ReadsMembers tokens (member :: members) := by
  induction members generalizing member with
  | nil =>
    obtain ⟨tokens, spells, reads⟩ := linked member List.mem_cons_self
    have name := spells_quote (names member List.mem_cons_self)
    refine ⟨.string member.1 :: .colon :: tokens, ?_, reads.lastMember member.1⟩
    exact name.append (spells.mark 58 .colon fun _ => rfl) fun _ _ => rfl
  | cons next members ih =>
    rw [List.forall_mem_cons] at names linked
    obtain ⟨tokens, spells, reads⟩ := linked.1
    obtain ⟨tokens', spells', reads'⟩ := ih names.2 linked.2
    refine ⟨.string member.1 :: .colon :: (tokens ++ .comma :: tokens'), ?_,
      reads.consMember member.1 reads'⟩
    have rest := spells.append (spells'.mark 44 .comma fun _ => rfl) fun _ _ => rfl
    have whole := (spells_quote names.1).append (rest.mark 58 .colon fun _ => rfl)
      fun _ _ => rfl
    simpa [printFields] using whole

/-- A word that stands for one value. -/
theorem linked_word {word : String} {token : Token} {value : Json}
    (letters : word.toUTF8.data.toList.all isWordByte = true)
    (named : Token.ofWord? word.toUTF8.toList = some token)
    (meant : ∀ enclosing, readValue enclosing token = some (place value enclosing)) :
    Linked word.toUTF8.toList value := by
  refine ⟨[token], spells_word (List.all_eq_true.mp ?_) named, reads_token meant⟩
  rwa [toList_eq_toList_data]

theorem linked_null : Linked (print .null) .null :=
  linked_word rfl (if_pos rfl) fun _ => rfl

theorem linked_bool (value : Bool) : Linked (print (.bool value)) (.bool value) := by
  have apart {a b : String} (h : a ≠ b) : a.toUTF8.toList ≠ b.toUTF8.toList :=
    mt toList_toUTF8_inj h
  cases value with
  | true =>
    have named : Token.ofWord? "true".toUTF8.toList = some (.bool true) := by
      rw [Token.ofWord?, if_neg (apart (by decide)), if_pos rfl]
    exact linked_word rfl named fun _ => rfl
  | false =>
    have named : Token.ofWord? "false".toUTF8.toList = some (.bool false) := by
      rw [Token.ofWord?, if_neg (apart (by decide)), if_neg (apart (by decide)), if_pos rfl]
    exact linked_word rfl named fun _ => rfl

/-- By induction on the value: the texts of its parts are cut and read where they stand in it. -/
theorem Printable.linked {value : Json} (h : Printable value) : Linked (print value) value := by
  induction h with
  | null => exact linked_null
  | bool value => exact linked_bool value
  | number letters word => exact ⟨_, spells_word letters word, reads_token fun _ => rfl⟩
  | string body => exact ⟨_, spells_quote body, reads_token fun _ => rfl⟩
  | @array items _ ih =>
    cases items with
    | nil =>
      have closed := Spells.nil.mark 93 .closeArray fun _ => rfl
      exact ⟨_, closed.mark 91 .openArray fun _ => rfl, fun _ _ => rfl⟩
    | cons item items =>
      obtain ⟨tokens, spells, reads⟩ := exists_items ih
      have closed := spells.append (Spells.nil.mark 93 .closeArray fun _ => rfl)
        fun _ _ => rfl
      exact ⟨_, closed.mark 91 .openArray fun _ => rfl, reads.array⟩
  | @object members names _ ih =>
    cases members with
    | nil =>
      have closed := Spells.nil.mark 125 .closeObject fun _ => rfl
      exact ⟨_, closed.mark 123 .openObject fun _ => rfl, fun _ _ => rfl⟩
    | cons member members =>
      obtain ⟨tokens, spells, reads⟩ := exists_members names ih
      have closed := spells.append (Spells.nil.mark 125 .closeObject fun _ => rfl)
        fun _ _ => rfl
      exact ⟨_, closed.mark 123 .openObject fun _ => rfl, reads.object⟩

/-- Reading undoes printing. -/
theorem parse?_print {value : Json} (h : Printable value) : parse? (print value) = some value := by
  obtain ⟨tokens, spells, reads⟩ := h.linked
  have cut : tokens? (print value) = some tokens := by
    have whole := spells [] [] trivial
    rw [List.append_nil, List.append_nil] at whole
    refine whole.trans ?_
    exact congrArg some (List.reverse_reverse tokens)
  have read := reads [] []
  rw [List.append_nil] at read
  rw [parse?, cut, Option.bind_some, read]
  rfl

end ChainLab.Json
