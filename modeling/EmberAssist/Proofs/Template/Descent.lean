import EmberAssist.Proofs.Template.Grammar

/-! The descent reads what the grammar says. At every depth that suffices for the grammar the
functions of the descent give what `Reads` relates, and what they give is related by `Reads`. -/
namespace EmberAssist.Template

variable {depth : Nat} {production : Production} {yield : Yield}
variable {input opened inner behind next stop closed : Input}

/-- What the descent gives at some depth, wherever the construct it is part of began. -/
def Gives (depth : Nat) : Production → Input → Yield → Input → Prop
  | .expression, input, .node found, closed => expression depth input = .ok (found, closed)
  | .call, input, .call found, closed => call depth input = .ok (found, closed)
  | .arguments afterNamed, input, .arguments params pairs, closed =>
    arguments depth afterNamed input = .ok ((params, pairs), closed)
  | .mustache, input, .mustache found trusting, closed => ∀ start,
    readMustache depth start input = .ok (.between start closed (.mustache found trusting), closed)
  | .modifier, input, .call found, closed => ∀ start,
    readModifier depth start input = .ok (.between start closed (.modifier found), closed)
  | .blockTag, input, .blockTag found blockParams, closed =>
    readBlockTag depth input = .ok ((found, blockParams), closed)
  | .pieces quote, input, .list found, closed => ∀ opening,
    valuePieces opening quote depth input = .ok (found, closed)
  | .value, input, .node found, closed => readValue depth input = .ok (found, closed)
  | .attr, input, .node found, closed => readAttribute depth input = .ok (found, closed)
  | .tagContent, input, .content found, closed => ∀ opening tag,
    tagContent opening tag depth input = .ok (found, closed)
  | .body, input, .list found, closed => body depth input = .ok (found, closed)
  | .statement, input, .node found, closed => statement depth input = .ok (found, closed)
  | .blockTail name blockParams, input, .blockTail program inverse, closed =>
    ∀ opening start found, blockTail depth opening name start found blockParams input =
      .ok (.between start closed (.blockCall found program inverse), closed)
  | .element tag, input, .element found children, closed => ∀ start,
    element depth start tag input =
      .ok (.between start closed (elementLayer tag found children), closed)
  | _, _, _, _ => False

theorem Input.expect_eq_ok {token : List Char} :
    input.expect token = .ok behind ↔ input.eat? token = some behind := by
  unfold Input.expect
  cases input.eat? token <;> simp [Input.fail]

private theorem expect_of_eat {token : List Char} (read : input.eat? token = some behind) :
    input.expect token = .ok behind := Input.expect_eq_ok.mpr read

private theorem exists_succ {deeper : Nat} (enough : depth + 1 ≤ deeper) :
    ∃ rest, deeper = rest + 1 ∧ depth ≤ rest := ⟨deeper - 1, by omega, by omega⟩

private theorem ok_bind {α β : Type} (found : α) (next : α → Except Failure β) :
    (Except.ok found >>= next) = next found := rfl

private theorem ok_pure {α : Type} (found : α) :
    (pure found : Except Failure α) = .ok found := rfl

/-! ## What the grammar reads -/

section Given
variable {deeper : Nat}

private theorem gives_invocation (reads : Reads depth production input yield closed)
    (level : production.level = .invocation) (enough : depth ≤ deeper) :
    Gives deeper production input yield closed := by
  induction reads generalizing deeper with
  | subExpression opens invoked closes ih =>
    obtain ⟨rest, rfl, deep⟩ := exists_succ enough
    have called := ih rfl deep
    simp only [Gives] at called ⊢
    simp [expression, opens, called, expect_of_eat closes, ok_bind, ok_pure]
  | string plain quoted read =>
    obtain ⟨rest, rfl, deep⟩ := exists_succ enough
    simp [Gives, expression, plain, quoted, read]
  | word plain bare read =>
    obtain ⟨rest, rfl, deep⟩ := exists_succ enough
    simp [Gives, expression, plain, bare, read]
  | call called given calledIH givenIH =>
    obtain ⟨rest, rfl, deep⟩ := exists_succ enough
    have callee := calledIH rfl deep
    have args := givenIH rfl deep
    simp only [Gives] at callee args ⊢
    simp [Template.call, callee, args, ok_bind, ok_pure]
  | noArguments more ends =>
    obtain ⟨rest, rfl, deep⟩ := exists_succ enough
    simp [Gives, arguments, more, ends, ok_pure]
  | named goesOn named assigned rest assignedIH restIH =>
    obtain ⟨rest, rfl, deep⟩ := exists_succ enough
    have value := assignedIH rfl deep
    have others := restIH rfl deep
    simp only [Gives] at value others ⊢
    simp [arguments, goesOn.1, goesOn.2, named, value, others, ok_bind, ok_pure]
  | positional goesOn unnamed given rest givenIH restIH =>
    obtain ⟨rest, rfl, deep⟩ := exists_succ enough
    have param := givenIH rfl deep
    have others := restIH rfl deep
    simp only [Gives] at param others ⊢
    simp [arguments, goesOn.1, goesOn.2, unnamed, param, others, ok_bind, ok_pure]
  | _ => cases level

private theorem gives_braces (reads : Reads depth production input yield closed)
    (level : production.level = .braces) (enough : depth ≤ deeper) :
    Gives deeper production input yield closed := by
  cases reads with
  | trusting third invoked closes =>
    have called := gives_invocation invoked rfl enough
    simp only [Gives] at called ⊢
    simp [readMustache, third, called, expect_of_eat closes, ok_bind, ok_pure]
  | mustache plain invoked closes =>
    have called := gives_invocation invoked rfl enough
    simp only [Gives] at called ⊢
    simp [readMustache, plain, called, expect_of_eat closes, ok_bind, ok_pure]
  | modifier invoked closes =>
    have called := gives_invocation invoked rfl enough
    simp only [Gives] at called ⊢
    simp [readModifier, called, expect_of_eat closes, ok_bind, ok_pure]
  | blockTag invoked declared closes =>
    have called := gives_invocation invoked rfl enough
    simp only [Gives] at called ⊢
    simp [readBlockTag, called, declared, expect_of_eat closes, ok_bind, ok_pure]
  | _ => cases level

private theorem gives_value (reads : Reads depth production input yield closed)
    (level : production.level = .value) (enough : depth ≤ deeper) :
    Gives deeper production input yield closed := by
  induction reads generalizing deeper with
  | lastPiece upTo more closes =>
    obtain ⟨rest, rfl, deep⟩ := exists_succ enough
    simp [Gives, valuePieces, upTo, more, closes, textPiece, ok_pure]
  | pieces upTo more open_ invoked rest _ restIH =>
    obtain ⟨rest, rfl, deep⟩ := exists_succ enough
    have invocation := gives_braces invoked rfl deep
    have others := restIH rfl deep
    simp only [Gives] at invocation others ⊢
    simp [valuePieces, upTo, more, open_, invocation, others, textPiece, ok_bind, ok_pure]
  | mustacheValue opens invoked =>
    have invocation := gives_braces invoked rfl enough
    simp only [Gives] at invocation ⊢
    simp [readValue, opens, invocation]
  | quotedValue plain quoted inside ih =>
    have pieces := ih rfl enough
    simp only [Gives] at pieces ⊢
    simp [readValue, plain, quoted, pieces, ok_bind, ok_pure]
  | bareValue plain bare taken =>
    simp [Gives, readValue, plain, bare, taken, ok_pure]
  | valueless named ends =>
    simp [Gives, readAttribute, named, ends, ok_pure]
  | attr named equals assigned ih =>
    have value := ih rfl enough
    simp only [Gives] at value ⊢
    simp [readAttribute, named, equals, value, ok_bind, ok_pure]
  | _ => cases level

private theorem gives_startTag (reads : Reads depth production input yield closed)
    (level : production.level = .startTag) (enough : depth ≤ deeper) :
    Gives deeper production input yield closed := by
  induction reads generalizing deeper with
  | selfClosed more closes =>
    obtain ⟨rest, rfl, deep⟩ := exists_succ enough
    simp [Gives, tagContent, more, closes, ok_pure]
  | tagEnd more open_ closes =>
    obtain ⟨rest, rfl, deep⟩ := exists_succ enough
    simp [Gives, tagContent, more, open_, closes, ok_pure]
  | tagComment stays opens comment rest ih =>
    obtain ⟨rest, rfl, deep⟩ := exists_succ enough
    have others := ih rfl deep
    obtain ⟨more, open_, unclosed⟩ := stays
    simp only [Gives] at others ⊢
    simp [tagContent, more, open_, unclosed, opens, comment, others, ok_bind, ok_pure]
  | tagModifier stays plain opens invoked rest _ restIH =>
    obtain ⟨rest, rfl, deep⟩ := exists_succ enough
    have invocation := gives_braces invoked rfl deep
    have others := restIH rfl deep
    obtain ⟨more, open_, unclosed⟩ := stays
    simp only [Gives] at invocation others ⊢
    simp [tagContent, more, open_, unclosed, plain, opens, invocation, others, ok_bind, ok_pure]
  | tagParams stays plain bare declared rest ih =>
    obtain ⟨rest, rfl, deep⟩ := exists_succ enough
    have others := ih rfl deep
    obtain ⟨more, open_, unclosed⟩ := stays
    simp only [Gives] at others ⊢
    simp [tagContent, more, open_, unclosed, plain, bare, declared, others, ok_bind, ok_pure]
  | tagAttribute stays plain bare undeclared taken rest _ restIH =>
    obtain ⟨rest, rfl, deep⟩ := exists_succ enough
    have attr := gives_value taken rfl deep
    have others := restIH rfl deep
    obtain ⟨more, open_, unclosed⟩ := stays
    simp only [Gives] at attr others ⊢
    simp [tagContent, more, open_, unclosed, plain, bare, undeclared, attr, others, ok_bind, ok_pure]
  | _ => cases level

section Step
variable {name : Option String} {tag : List Char} {blockParams : List String} (deep : depth ≤ deeper)
variable (ih : ∀ {production input yield closed}, Reads depth production input yield closed →
  production.level = .content → Gives deeper production input yield closed)
include ih

private theorem gives_body_succ (reads : Reads (depth + 1) .body input yield closed) :
    Gives (deeper + 1) .body input yield closed := by
  cases reads with
  | noStatements ends =>
    simp [Gives, body, ends, ok_pure]
  | statements goesOn head rest =>
    have first := ih head rfl
    have others := ih rest rfl
    simp only [Gives] at first others ⊢
    simp [body, goesOn, first, others, ok_bind, ok_pure]

include deep

private theorem gives_statement_succ (reads : Reads (depth + 1) .statement input yield closed) :
    Gives (deeper + 1) .statement input yield closed := by
  cases reads with
  | mustacheComment opens comment =>
    simp [Gives, statement, opens, comment]
  | block plain opens block hash tag tail =>
    have opening := gives_braces tag rfl deep
    have others := ih tail rfl
    simp only [Gives] at opening others ⊢
    simp [statement, plain, opens, block, expect_of_eat hash, opening, others, ok_bind]
  | mustacheStatement plain opens single invoked =>
    have invocation := gives_braces invoked rfl deep
    simp only [Gives] at invocation ⊢
    simp [statement, plain, opens, single, invocation]
  | comment plain bare opens comment =>
    simp [Gives, statement, plain, bare, opens, comment]
  | element plain bare visible tagged read =>
    have inside := ih read rfl
    simp only [Gives] at inside ⊢
    simp [statement, plain, bare, visible, tagged, inside]
  | text plain bare visible untagged =>
    simp [Gives, statement, plain, bare, visible, untagged, ok_pure]

private theorem gives_blockTail_succ
    (reads : Reads (depth + 1) (.blockTail name blockParams) input yield closed) :
    Gives (deeper + 1) (.blockTail name blockParams) input yield closed := by
  cases reads with
  | blockEnd body noElse closes same =>
    have program := ih body rfl
    simp only [Gives] at program ⊢
    simp [blockTail, program, noElse, readBlockClose, closes, same, ok_bind, ok_pure]
  | blockElse body otherwise last ends otherBody noElse closes same =>
    have program := ih body rfl
    have inverse := ih otherBody rfl
    simp only [Gives] at program inverse ⊢
    simp [blockTail, program, otherwise, last, expect_of_eat ends, inverse, noElse, readBlockClose,
      closes, same, ok_bind, ok_pure]
  | blockChain body otherwise chained tag tail =>
    have program := ih body rfl
    have opening := gives_braces tag rfl deep
    have others := ih tail rfl
    simp only [Gives] at program opening others ⊢
    simp [blockTail, program, otherwise, chained, opening, others, ok_bind, ok_pure]

private theorem gives_element_succ (reads : Reads (depth + 1) (.element tag) input yield closed) :
    Gives (deeper + 1) (.element tag) input yield closed := by
  cases reads with
  | bareElement startTag bare =>
    have content := gives_startTag startTag rfl deep
    simp only [Gives] at content ⊢
    unfold isBare at bare
    simp only [element, content, bare, ok_bind, ok_pure, ↓reduceIte]
    exact fun start => rfl
  | filledElement startTag filled inside closes ends =>
    have content := gives_startTag startTag rfl deep
    have children := ih inside rfl
    simp only [Gives] at content children ⊢
    unfold isBare at filled
    simp only [element, content, filled, children, readElementClose, closes, expect_of_eat ends,
      ok_bind, ok_pure, Bool.false_eq_true, ↓reduceIte]
    exact fun start => rfl

end Step

private theorem gives_content (reads : Reads depth production input yield closed)
    (level : production.level = .content) (enough : depth ≤ deeper) :
    Gives deeper production input yield closed := by
  induction depth generalizing deeper production input yield closed with
  | zero => cases reads with | _ => cases level
  | succ depth ih =>
    obtain ⟨rest, rfl, deep⟩ := exists_succ enough
    cases production with
    | body => exact gives_body_succ (fun reads level => ih reads level deep) reads
    | statement => exact gives_statement_succ deep (fun reads level => ih reads level deep) reads
    | blockTail => exact gives_blockTail_succ deep (fun reads level => ih reads level deep) reads
    | element => exact gives_element_succ deep (fun reads level => ih reads level deep) reads
    | _ => cases level

/-- Whatever the grammar reads is what the descent gives, at this depth or a greater one. -/
theorem gives_of_reads (reads : Reads depth production input yield closed) (enough : depth ≤ deeper) :
    Gives deeper production input yield closed := by
  cases level : production.level with
  | invocation => exact gives_invocation reads level enough
  | braces => exact gives_braces reads level enough
  | value => exact gives_value reads level enough
  | startTag => exact gives_startTag reads level enough
  | content => exact gives_content reads level enough

end Given

/-! ## What the descent gives -/

private theorem bind_eq_ok {α β : Type} {first : Except Failure α}
    {next : α → Except Failure β} {result : β} :
    (first >>= next) = .ok result ↔ ∃ found, first = .ok found ∧ next found = .ok result := by
  cases first <;> simp [bind, Except.bind]

private theorem fail_ne_ok {α : Type} {fault : Fault} {result : α} :
    (input.fail fault : Except Failure α) = .ok result ↔ False := by
  simp [Input.fail]

private theorem pure_eq_ok {α : Type} {found result : α} :
    (pure found : Except Failure α) = .ok result ↔ found = result := by
  simp [pure, Except.pure]

/-- What the descent gives for an expression, an invocation or its arguments is read by the
grammar. -/
theorem reads_invocation (depth : Nat) :
    (∀ {input node closed}, expression depth input = .ok (node, closed) →
      Reads depth .expression input (.node node) closed) ∧
    (∀ {input found closed}, call depth input = .ok (found, closed) →
      Reads depth .call input (.call found) closed) ∧
    ∀ {afterNamed input params pairs closed},
      arguments depth afterNamed input = .ok ((params, pairs), closed) →
      Reads depth (.arguments afterNamed) input (.arguments params pairs) closed := by
  induction depth with
  | zero => simp [expression, call, arguments, fail_ne_ok]
  | succ depth ih =>
    obtain ⟨expressionIH, callIH, argumentsIH⟩ := ih
    refine ⟨?_, ?_, ?_⟩
    · intro input node closed given
      rw [expression] at given
      split at given
      · rename_i opened opens
        simp only [bind_eq_ok, pure_eq_ok, Prod.exists, Prod.mk.injEq, Input.expect_eq_ok] at given
        obtain ⟨found, behind, invoked, _, closes, rfl, rfl⟩ := given
        exact .subExpression opens (callIH invoked) closes
      · rename_i plain
        split at given
        · rename_i quote quoted
          exact .string plain quoted given
        · rename_i bare
          exact .word plain bare given
    · intro input found closed given
      simp only [call, bind_eq_ok, pure_eq_ok, Prod.exists, Prod.mk.injEq] at given
      obtain ⟨callee, behind, called, params, pairs, _, args, rfl, rfl⟩ := given
      exact .call (expressionIH called) (argumentsIH args)
    · intro afterNamed input params pairs closed given
      rw [arguments] at given
      split at given
      · simp [fail_ne_ok] at given
      · rename_i more
        split at given
        · rename_i ends
          simp only [pure_eq_ok, Prod.mk.injEq] at given
          obtain ⟨⟨rfl, rfl⟩, rfl⟩ := given
          exact .noArguments (by simpa using more) ends
        · rename_i goes
          have goesOn : input.skipBlank.GoesOn := ⟨by simpa using more, by simpa using goes⟩
          split at given
          · rename_i name behind named
            simp only [bind_eq_ok, pure_eq_ok, Prod.exists, Prod.mk.injEq] at given
            obtain ⟨value, next, assigned, others, rest, _, more, ⟨rfl, rfl⟩, rfl⟩ := given
            exact .named goesOn named (expressionIH assigned) (argumentsIH more)
          · rename_i unnamed
            cases afterNamed with
            | true => simp [fail_ne_ok] at given
            | false =>
              simp only [Bool.false_eq_true, ↓reduceIte, bind_eq_ok, pure_eq_ok, Prod.exists,
                Prod.mk.injEq] at given
              obtain ⟨param, next, first, others, rest, _, more, ⟨rfl, rfl⟩, rfl⟩ := given
              exact .positional goesOn unnamed (expressionIH first) (argumentsIH more)

private theorem reads_call {found : Call (Node Span)}
    (given : call depth input = .ok (found, closed)) : Reads depth .call input (.call found) closed :=
  (reads_invocation depth).2.1 given

theorem reads_mustache {start : Input} {node : Node Span}
    (given : readMustache depth start input = .ok (node, closed)) :
    ∃ found trusting, node = .between start closed (.mustache found trusting) ∧
      Reads depth .mustache input (.mustache found trusting) closed := by
  unfold readMustache at given
  cases third : input.eat? ['{'] with
  | none =>
    simp only [third, bind_eq_ok, pure_eq_ok, Prod.exists, Prod.mk.injEq, Input.expect_eq_ok,
      Bool.false_eq_true, ↓reduceIte] at given
    obtain ⟨found, behind, invoked, _, closes, rfl, rfl⟩ := given
    exact ⟨found, false, rfl, .mustache third (reads_call invoked) closes⟩
  | some inner =>
    simp only [third, bind_eq_ok, pure_eq_ok, Prod.exists, Prod.mk.injEq, Input.expect_eq_ok,
      ↓reduceIte] at given
    obtain ⟨found, behind, invoked, _, closes, rfl, rfl⟩ := given
    exact ⟨found, true, rfl, .trusting third (reads_call invoked) closes⟩

theorem reads_modifier {start : Input} {node : Node Span}
    (given : readModifier depth start input = .ok (node, closed)) :
    ∃ found, node = .between start closed (.modifier found) ∧
      Reads depth .modifier input (.call found) closed := by
  simp only [readModifier, bind_eq_ok, pure_eq_ok, Prod.exists, Prod.mk.injEq,
    Input.expect_eq_ok] at given
  obtain ⟨found, behind, invoked, _, closes, rfl, rfl⟩ := given
  exact ⟨found, rfl, .modifier (reads_call invoked) closes⟩

theorem reads_blockTag {found : Call (Node Span)} {blockParams : List String}
    (given : readBlockTag depth input = .ok ((found, blockParams), closed)) :
    Reads depth .blockTag input (.blockTag found blockParams) closed := by
  simp only [readBlockTag, bind_eq_ok, pure_eq_ok, Prod.exists, Prod.mk.injEq,
    Input.expect_eq_ok] at given
  obtain ⟨_, behind, invoked, _, closes, ⟨rfl, rfl⟩, rfl⟩ := given
  exact .blockTag (reads_call invoked) rfl closes

theorem reads_pieces {opening : Input} {quote : Char} {pieces : List (Node Span)}
    (given : valuePieces opening quote depth input = .ok (pieces, closed)) :
    Reads depth (.pieces quote) input (.list pieces) closed := by
  induction depth generalizing input pieces with
  | zero => simp [valuePieces, fail_ne_ok] at given
  | succ depth ih =>
    rw [valuePieces] at given
    cases upTo : input.takeUntil (Input.endsPiece quote) with
    | mk chars stop =>
      simp only [upTo] at given
      split at given
      · simp [fail_ne_ok] at given
      · rename_i more
        have more : stop.atEnd = false := by simpa using more
        split at given
        · rename_i found closes
          simp only [pure_eq_ok, Prod.mk.injEq] at given
          obtain ⟨rfl, rfl⟩ := given
          exact .lastPiece upTo more closes
        · rename_i open_
          simp only [bind_eq_ok, pure_eq_ok, Prod.exists, Prod.mk.injEq] at given
          obtain ⟨node, behind, invoked, others, _, rest, rfl, rfl⟩ := given
          obtain ⟨found, trusting, rfl, reads⟩ := reads_mustache invoked
          exact .pieces upTo more open_ reads (ih rest)

theorem reads_value {node : Node Span} (given : readValue depth input = .ok (node, closed)) :
    Reads depth .value input (.node node) closed := by
  unfold readValue at given
  split at given
  · rename_i opened opens
    obtain ⟨found, trusting, rfl, reads⟩ := reads_mustache given
    exact .mustacheValue opens reads
  · rename_i plain
    split at given
    · rename_i quote quoted
      simp only [bind_eq_ok, pure_eq_ok, Prod.exists, Prod.mk.injEq] at given
      obtain ⟨pieces, _, inside, rfl, rfl⟩ := given
      exact .quotedValue plain quoted (reads_pieces inside)
    · rename_i bare
      split at given
      · rename_i chars behind taken
        simp only [pure_eq_ok, Prod.mk.injEq] at given
        obtain ⟨rfl, rfl⟩ := given
        exact .bareValue plain bare taken
      · simp [fail_ne_ok] at given

theorem reads_attr {node : Node Span} (given : readAttribute depth input = .ok (node, closed)) :
    Reads depth .attr input (.node node) closed := by
  unfold readAttribute at given
  split at given
  · simp [fail_ne_ok] at given
  · rename_i name behind named
    split at given
    · rename_i ends
      simp only [pure_eq_ok, Prod.mk.injEq] at given
      obtain ⟨rfl, rfl⟩ := given
      exact .valueless named ends
    · rename_i equals found
      simp only [bind_eq_ok, pure_eq_ok, Prod.exists, Prod.mk.injEq] at given
      obtain ⟨value, _, assigned, rfl, rfl⟩ := given
      exact .attr named found (reads_value assigned)

private theorem none_of_unread {α : Type} {read : Option α}
    (unread : ∀ found, read = some found → False) : read = none :=
  Option.eq_none_iff_forall_ne_some.mpr unread

theorem reads_tagContent {opening : Input} {tag : String} {content : TagContent}
    (given : tagContent opening tag depth input = .ok (content, closed)) :
    Reads depth .tagContent input (.content content) closed := by
  induction depth generalizing input content with
  | zero => simp [tagContent, fail_ne_ok] at given
  | succ depth ih =>
    rw [tagContent] at given
    split at given
    · simp [fail_ne_ok] at given
    rename_i more
    have more : input.skipBlank.atEnd = false := by simpa using more
    split at given
    · rename_i closes
      simp only [pure_eq_ok, Prod.mk.injEq] at given
      obtain ⟨rfl, rfl⟩ := given
      exact .selfClosed more closes
    rename_i open_
    have open_ := none_of_unread open_
    split at given
    · rename_i closes
      simp only [pure_eq_ok, Prod.mk.injEq] at given
      obtain ⟨rfl, rfl⟩ := given
      exact .tagEnd more open_ closes
    rename_i unclosed
    have stays : input.skipBlank.StaysInTag := ⟨more, open_, none_of_unread unclosed⟩
    split at given
    · rename_i isLong opened opens
      simp only [bind_eq_ok, pure_eq_ok, Prod.exists, Prod.mk.injEq] at given
      obtain ⟨node, behind, comment, others, _, rest, rfl, rfl⟩ := given
      exact .tagComment stays opens comment (ih rest)
    rename_i plain
    have plain : input.skipBlank.commentOpen? = none :=
      none_of_unread fun found opens => plain found.1 found.2 opens
    split at given
    · rename_i opened opens
      simp only [bind_eq_ok, pure_eq_ok, Prod.exists, Prod.mk.injEq] at given
      obtain ⟨node, behind, invoked, others, _, rest, rfl, rfl⟩ := given
      obtain ⟨found, rfl, reads⟩ := reads_modifier invoked
      exact .tagModifier stays plain opens reads (ih rest)
    rename_i bare
    have bare := none_of_unread bare
    split at given
    · rename_i names behind declared
      simp only [bind_eq_ok, pure_eq_ok, Prod.exists, Prod.mk.injEq] at given
      obtain ⟨others, _, rest, rfl, rfl⟩ := given
      exact .tagParams stays plain bare declared (ih rest)
    · rename_i undeclared
      have undeclared : input.skipBlank.blockParams? = none :=
        none_of_unread fun found declared => undeclared found.1 found.2 declared
      simp only [bind_eq_ok, pure_eq_ok, Prod.exists, Prod.mk.injEq] at given
      obtain ⟨node, behind, taken, others, _, rest, rfl, rfl⟩ := given
      exact .tagAttribute stays plain bare undeclared (reads_attr taken) (ih rest)

private theorem readBlockClose_eq_ok {opening : Input} {name : Option String} :
    readBlockClose opening name input = .ok closed ↔
      ∃ closing, input.closeBlock? = some (closing, closed) ∧ name = some (String.ofList closing) := by
  unfold readBlockClose
  split
  · rename_i absent
    simp [absent, fail_ne_ok]
  · rename_i closing behind found
    split
    · rename_i same
      simp only [Except.ok.injEq, found, Option.some.injEq, Prod.mk.injEq, same]
      constructor
      · rintro rfl
        exact ⟨closing, ⟨rfl, rfl⟩, rfl⟩
      · rintro ⟨_, ⟨-, rfl⟩, -⟩
        rfl
    · rename_i differ
      simp only [fail_ne_ok, found, Option.some.injEq, Prod.mk.injEq, false_iff]
      rintro ⟨_, ⟨rfl, -⟩, same⟩
      exact differ same

private theorem readElementClose_eq_ok {opening : Input} {tag : List Char} :
    readElementClose opening tag input = .ok closed ↔
      ∃ behind, input.eat? ('<' :: '/' :: tag) = some behind ∧
        behind.skipBlank.eat? ['>'] = some closed := by
  unfold readElementClose
  split
  · rename_i absent
    simp [absent, fail_ne_ok]
  · rename_i behind found
    simp [Input.expect_eq_ok, found]

section Succ
variable {opening start : Input} {name : Option String} {tag : List Char} {node : Node Span}
variable {found : Call (Node Span)} {blockParams : List String}

private theorem reads_body_succ {statements : List (Node Span)}
    (bodyIH : ∀ {input statements closed}, body depth input = .ok (statements, closed) →
      Reads depth .body input (.list statements) closed)
    (statementIH : ∀ {input node closed}, statement depth input = .ok (node, closed) →
      Reads depth .statement input (.node node) closed)
    (given : body (depth + 1) input = .ok (statements, closed)) :
    Reads (depth + 1) .body input (.list statements) closed := by
  rw [body] at given
  split at given
  · rename_i ends
    simp only [pure_eq_ok, Prod.mk.injEq] at given
    obtain ⟨rfl, rfl⟩ := given
    exact .noStatements ends
  · rename_i goesOn
    simp only [bind_eq_ok, pure_eq_ok, Prod.exists, Prod.mk.injEq] at given
    obtain ⟨first, behind, head, others, _, rest, rfl, rfl⟩ := given
    exact .statements (by simpa using goesOn) (statementIH head) (bodyIH rest)

private theorem reads_statement_succ
    (blockTailIH : ∀ {opening name start found blockParams input node closed},
      blockTail depth opening name start found blockParams input = .ok (node, closed) →
      ∃ program inverse, node = .between start closed (.blockCall found program inverse) ∧
        Reads depth (.blockTail name blockParams) input (.blockTail program inverse) closed)
    (elementIH : ∀ {start tag input node closed},
      element depth start tag input = .ok (node, closed) →
      ∃ content children, node = .between start closed (elementLayer tag content children) ∧
        Reads depth (.element tag) input (.element content children) closed)
    (given : statement (depth + 1) input = .ok (node, closed)) :
    Reads (depth + 1) .statement input (.node node) closed := by
  rw [statement] at given
  split at given
  · rename_i isLong opened opens
    exact .mustacheComment opens given
  rename_i plain
  have plain : input.commentOpen? = none :=
    none_of_unread fun found opens => plain found.1 found.2 opens
  split at given
  · rename_i opened opens
    split at given
    · rename_i block
      simp only [bind_eq_ok, Prod.exists, Input.expect_eq_ok] at given
      obtain ⟨inner, hash, found, blockParams, tagEnd, tag, tail⟩ := given
      obtain ⟨program, inverse, rfl, reads⟩ := blockTailIH tail
      exact .block plain opens block hash (reads_blockTag tag) reads
    · rename_i single
      obtain ⟨found, trusting, rfl, reads⟩ := reads_mustache given
      exact .mustacheStatement plain opens (by simpa using single) reads
  rename_i bare
  have bare := none_of_unread bare
  split at given
  · rename_i opened opens
    exact .comment plain bare opens given
  rename_i visible
  have visible := none_of_unread visible
  split at given
  · rename_i tag named tagged
    obtain ⟨content, children, rfl, reads⟩ := elementIH given
    exact .element plain bare visible tagged reads
  · rename_i untagged
    simp only [pure_eq_ok] at given
    obtain rfl : (readText input).1 = node := congrArg Prod.fst given
    obtain rfl : (readText input).2 = closed := congrArg Prod.snd given
    exact .text plain bare visible
      (none_of_unread fun found tagged => untagged found.1 found.2 tagged)

private theorem reads_blockTail_succ
    (bodyIH : ∀ {input statements closed}, body depth input = .ok (statements, closed) →
      Reads depth .body input (.list statements) closed)
    (blockTailIH : ∀ {opening name start found blockParams input node closed},
      blockTail depth opening name start found blockParams input = .ok (node, closed) →
      ∃ program inverse, node = .between start closed (.blockCall found program inverse) ∧
        Reads depth (.blockTail name blockParams) input (.blockTail program inverse) closed)
    (given : blockTail (depth + 1) opening name start found blockParams input =
      .ok (node, closed)) :
    ∃ program inverse, node = .between start closed (.blockCall found program inverse) ∧
      Reads (depth + 1) (.blockTail name blockParams) input (.blockTail program inverse) closed := by
  rw [blockTail] at given
  simp only [bind_eq_ok, Prod.exists] at given
  obtain ⟨statements, stop, program, given⟩ := given
  have program := bodyIH program
  split at given
  · rename_i noElse
    simp only [bind_eq_ok, pure_eq_ok, Prod.mk.injEq, readBlockClose_eq_ok] at given
    obtain ⟨_, ⟨closing, closes, same⟩, rfl, rfl⟩ := given
    exact ⟨_, _, rfl, .blockEnd program noElse closes same⟩
  · rename_i word otherwise
    split at given
    · rename_i last
      simp only [bind_eq_ok, Prod.exists, Input.expect_eq_ok] at given
      obtain ⟨inverseStart, ends, others, inverseStop, inverse, given⟩ := given
      split at given
      · simp [fail_ne_ok] at given
      · rename_i noElse
        simp only [bind_eq_ok, pure_eq_ok, Prod.mk.injEq, readBlockClose_eq_ok] at given
        obtain ⟨_, ⟨closing, closes, same⟩, rfl, rfl⟩ := given
        exact ⟨_, _, rfl, .blockElse program otherwise last ends (bodyIH inverse)
          (by simpa using noElse) closes same⟩
    · rename_i chained
      simp only [bind_eq_ok, pure_eq_ok, Prod.exists, Prod.mk.injEq] at given
      obtain ⟨nextCall, nextParams, tagEnd, tag, next, _, tail, rfl, rfl⟩ := given
      obtain ⟨nextProgram, nextInverse, rfl, reads⟩ := blockTailIH tail
      exact ⟨_, _, rfl, .blockChain program otherwise (by simpa using chained)
        (reads_blockTag tag) reads⟩

private theorem reads_element_succ
    (bodyIH : ∀ {input statements closed}, body depth input = .ok (statements, closed) →
      Reads depth .body input (.list statements) closed)
    (given : element (depth + 1) start tag input = .ok (node, closed)) :
    ∃ content children, node = .between start closed (elementLayer tag content children) ∧
      Reads (depth + 1) (.element tag) input (.element content children) closed := by
  rw [element] at given
  simp only [bind_eq_ok, Prod.exists] at given
  obtain ⟨content, tagEnd, startTag, given⟩ := given
  have startTag := reads_tagContent startTag
  split at given
  · rename_i bare
    simp only [bind_eq_ok, pure_eq_ok, Prod.exists, Prod.mk.injEq] at given
    obtain ⟨_, _, ⟨rfl, rfl⟩, rfl, rfl⟩ := given
    exact ⟨content, [], rfl, .bareElement startTag bare⟩
  · rename_i filled
    simp only [bind_eq_ok, pure_eq_ok, Prod.exists, Prod.mk.injEq,
      readElementClose_eq_ok] at given
    obtain ⟨children, stop, inside, _, ⟨slash, closes, ends⟩, _, _, ⟨rfl, rfl⟩, rfl, rfl⟩ := given
    exact ⟨content, _, rfl,
      .filledElement startTag (by simpa [isBare] using filled) (bodyIH inside) closes ends⟩

end Succ

/-- What the descent gives for a body, a statement, the rest of a block or an element is read by the
grammar. -/
theorem reads_body (depth : Nat) :
    (∀ {input statements closed}, body depth input = .ok (statements, closed) →
      Reads depth .body input (.list statements) closed) ∧
    (∀ {input node closed}, statement depth input = .ok (node, closed) →
      Reads depth .statement input (.node node) closed) ∧
    (∀ {opening name start found blockParams input node closed},
      blockTail depth opening name start found blockParams input = .ok (node, closed) →
      ∃ program inverse, node = .between start closed (.blockCall found program inverse) ∧
        Reads depth (.blockTail name blockParams) input (.blockTail program inverse) closed) ∧
    ∀ {start tag input node closed}, element depth start tag input = .ok (node, closed) →
      ∃ content children, node = .between start closed (elementLayer tag content children) ∧
        Reads depth (.element tag) input (.element content children) closed := by
  induction depth with
  | zero => simp [body, statement, blockTail, element, fail_ne_ok]
  | succ depth ih =>
    obtain ⟨bodyIH, statementIH, blockTailIH, elementIH⟩ := ih
    exact ⟨reads_body_succ bodyIH statementIH, reads_statement_succ blockTailIH elementIH,
      reads_blockTail_succ bodyIH blockTailIH, reads_element_succ bodyIH⟩

/-- A template is a body that ends with the text. -/
theorem parseSpans_eq_ok {chars : List Char} {tree : Node Span} :
    parseSpans chars = .ok tree ↔ ∃ statements stop,
      Reads (depthFor chars.length) .body (.ofText chars) (.list statements) stop ∧
      stop.atEnd = true ∧ tree = .between (.ofText chars) stop (.template statements []) := by
  unfold parseSpans
  rw [bind_eq_ok]
  constructor
  · rintro ⟨⟨statements, stop⟩, read, given⟩
    simp only at given
    split at given
    · rename_i ends
      exact ⟨statements, stop, (reads_body _).1 read, ends, (pure_eq_ok.mp given).symm⟩
    · simp [fail_ne_ok] at given
  · rintro ⟨statements, stop, reads, ends, rfl⟩
    have read : body _ _ = _ := gives_of_reads reads (Nat.le_refl _)
    exact ⟨(statements, stop), read, by simp [ends, ok_pure]⟩

end EmberAssist.Template
