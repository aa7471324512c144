import Mathlib.Data.Option.Basic
import RouteStubs.Body.Answer

/-!
# The source of a handler

A body is judged as the block of a function. Whatever the body is, the source starts with the line
that defines this function, so if the source can be read at all, then its first statement is the
function.

## Main definitions

* `Scanner.next?`, `Scanner.advance?`: the steps of a scanner.
* `handlerOf`: the handler with a block.

## Main statements

* `tokens_source`: the source of a handler starts with its first line.
* `statements_source`: its first statement is the handler.
-/

namespace RouteStubs.Body

open Text Grammar Reader

/-! ### The steps of a scanner -/

/-- The next step of a scanner. -/
def Scanner.next? (s : Scanner) : Option (List Token × Scanner) :=
  if s.atStart then s.startLine? else s.insideLine?

/-- The next steps of a scanner. -/
def Scanner.advance? : (steps : Nat) → Scanner → Option (List Token × Scanner)
  | 0, s => some ([], s)
  | steps + 1, s =>
    if s.rest.isEmpty then none
    else s.next?.bind fun (tokens, next) =>
      (next.advance? steps).map fun (more, last) => (tokens ++ more, last)

theorem Scanner.tokens?_succ {s : Scanner} (hrest : s.rest ≠ []) (steps : Nat) :
    s.tokens? (steps + 1) =
      s.next?.bind fun (tokens, next) => (next.tokens? steps).map (tokens ++ ·) := by
  rw [Scanner.tokens?, if_neg (by simp [hrest]), Scanner.next?]
  cases s.atStart <;> simp [Option.map_eq_bind]

/-- The tokens after some steps are the last ones. -/
theorem Scanner.tokens?_of_advance {s last : Scanner} {tokens : List Token} {first : Nat}
    (h : s.advance? first = some (tokens, last)) (steps : Nat) :
    s.tokens? (steps + first) = (last.tokens? steps).map (tokens ++ ·) := by
  induction first generalizing s tokens with
  | zero =>
    cases h
    simp
  | succ first ih =>
    rw [Scanner.advance?] at h
    split at h
    · cases h
    · next hrest =>
      obtain ⟨⟨tokens₁, next⟩, hnext, h⟩ := Option.bind_eq_some_iff.mp h
      obtain ⟨⟨more, _⟩, hmore, hlast⟩ := Option.map_eq_some_iff.mp h
      cases hlast
      rw [← Nat.add_assoc, Scanner.tokens?_succ (by simpa using hrest), hnext, Option.bind_some]
      dsimp only
      rw [ih hmore, Option.map_map]
      simp [Function.comp_def]

/-! ### The first line -/

/-- The tokens of the first line of the source of a handler. -/
def headTokens : List Token :=
  [.word "def", .word "_handler", .mark "(", .word "request", .mark ",", .word "env", .mark ",",
    .word "params", .mark ")", .mark ":", .lineEnd]

theorem advance?_head (rest : List Char) :
    Scanner.advance? 15 ⟨true, [⟨0, 0⟩], [], head ++ rest⟩ =
      some (headTokens, ⟨true, [⟨0, 0⟩], [], rest⟩) := rfl

theorem lineFeeds_cons {c : Char} (hc : c ≠ '\r') (s : List Char) :
    lineFeeds (c :: s) = c :: lineFeeds s := by
  cases s <;> simp [lineFeeds, hc]

theorem lineFeeds_append {s : List Char} (hs : '\r' ∉ s) (t : List Char) :
    lineFeeds (s ++ t) = s ++ lineFeeds t := by
  induction s with
  | nil => rfl
  | cons c rest ih =>
    rw [List.mem_cons, not_or] at hs
    rw [List.cons_append, lineFeeds_cons (Ne.symm hs.1), ih hs.2, List.cons_append]

theorem exists_withLineFeeds_source (body : List Char) :
    ∃ rest, withLineFeeds (source body) = head ++ rest := by
  unfold withLineFeeds source
  rw [lineFeeds_append (by decide)]
  dsimp only
  split
  · exact ⟨_, rfl⟩
  · exact ⟨_, List.append_assoc ..⟩

/-- The source of a handler starts with its first line. -/
theorem tokens_source {body : List Char} {tokens : List Token}
    (h : tokens? (source body) = some tokens) : ∃ more, tokens = headTokens ++ more := by
  obtain ⟨rest, hrest⟩ := exists_withLineFeeds_source body
  rw [tokens?, hrest] at h
  split at h
  · cases h
  · have hsteps : 2 * (head ++ rest).length + 2 = 2 * rest.length + 59 + 15 := by
      have hhead : head.length = 36 := rfl
      rw [List.length_append, hhead]
      omega
    rw [hsteps, Scanner.tokens?_of_advance (advance?_head rest), Option.map_eq_some_iff] at h
    obtain ⟨more, -, rfl⟩ := h
    exact ⟨more, rfl⟩

/-! ### The first statement -/

/-- The handler with a block. -/
def handlerOf (block : List Stmt) : Stmt :=
  .function false "_handler" ["request", "env", "params"] [] [] block

theorem run_functionTail_head (inner : Levels) (nested : Reader (List Stmt)) (more : List Token) :
    (functionTail inner nested false []).run (headTokens.tail ++ more) =
      (handlerOf <$> block inner nested).run (.mark ":" :: .lineEnd :: more) := rfl

theorem run_statement_head (inner : Levels) (depth : Nat) (more : List Token) :
    (statement inner (depth + 1)).run (headTokens ++ more) =
      ((functionTail inner (statement inner depth) false []).run (headTokens.tail ++ more)).map
        fun (s, rest) => ([s], rest) := by
  simp [statement, statementWith, many, manyFrom, decorator?, mark?, word?, take?, headTokens]
  rfl

theorem run_file_head (inner : Levels) (depth : Nat) (more : List Token) :
    (file inner depth).run (headTokens ++ more) = (do
      let first ← statement inner depth
      let others ← manyFrom (do
        if (← get).isEmpty then return none
        return some (← statement inner depth)) (headTokens ++ more).length
      return first ++ others.flatten : Reader (List Stmt)).run (headTokens ++ more) := by
  have hne : headTokens ≠ [] := by decide
  simp [file, many, manyFrom, hne, Option.bind_map, Function.comp_def]

/-- If the source of a handler can be read, then its first statement is the handler. -/
theorem statements_source {body : List Char} {statements : List Stmt}
    (h : statements? (source body) = some statements) :
    ∃ block others, statements = handlerOf block :: others := by
  simp only [statements?, Option.bind_eq_bind, Option.bind_eq_some_iff] at h
  obtain ⟨tokens, htokens, ⟨found, rest⟩, hfile, hfound⟩ := h
  cases hfound
  obtain ⟨more, rfl⟩ := tokens_source htokens
  rw [run_file_head] at hfile
  simp only [StateT.run_bind, StateT.run_map, StateT.run_pure, Option.bind_eq_bind,
    Option.bind_eq_some_iff, run_statement_head, run_functionTail_head, Option.map_eq_map,
    Option.map_eq_some_iff, Option.pure_def] at hfile
  obtain ⟨_, ⟨_, ⟨⟨block, _⟩, -, rfl⟩, rfl⟩, ⟨others, _⟩, -, hfound⟩ := hfile
  cases hfound
  exact ⟨block, others.flatten, rfl⟩

end RouteStubs.Body
