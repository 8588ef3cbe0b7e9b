import CrazyCode.Config.Lexer

/-!
# Config trees and the config grammar

`NginxConfigStatement` and `NginxConfig` are the parsed representation of `src/config_parser.h`. A
statement is `Proper` when it has at least one token, and so have the statements of its block.

`flatten` writes a tree out as the tokens it was read from, and `Statements` is the grammar that the
tokens of a config file are to follow. The grammar is exactly what the proper trees are written out
as (`statements_iff`).
-/

namespace CrazyCode.Config

open Text

/-- The parsed representation of a single config statement: `tokens_`, and `child_block_` if it is
not null. -/
inductive NginxConfigStatement where
  | mk (tokens : List Str) (childBlock : Option (List NginxConfigStatement))

/-- The parsed representation of the entire config: its `statements_`. -/
abbrev NginxConfig := List NginxConfigStatement

/-- `tokens_`. -/
def NginxConfigStatement.tokens : NginxConfigStatement → List Str
  | mk tokens _ => tokens

/-- `child_block_`. -/
def NginxConfigStatement.childBlock : NginxConfigStatement → Option NginxConfig
  | mk _ childBlock => childBlock

mutual

/-- The tokens of a statement, in order. -/
def NginxConfigStatement.flatten : NginxConfigStatement → List Token
  | .mk tokens none => tokens.map .word ++ [.semicolon]
  | .mk tokens (some config) =>
    tokens.map .word ++ .opening :: (flattenAll config ++ [.closing])

/-- The tokens of the statements of a config, in order. -/
def flattenAll : List NginxConfigStatement → List Token
  | [] => []
  | statement :: config => statement.flatten ++ flattenAll config

end

mutual

/-- A statement with a token, and with such statements in its block. -/
def NginxConfigStatement.Proper : NginxConfigStatement → Prop
  | .mk tokens none => tokens ≠ []
  | .mk tokens (some config) => tokens ≠ [] ∧ ProperAll config

/-- A config of proper statements. -/
def ProperAll : List NginxConfigStatement → Prop
  | [] => True
  | statement :: config => statement.Proper ∧ ProperAll config

end

/-- The in-order flattening of a tree. -/
def NginxConfig.flatten (config : NginxConfig) : List Token := flattenAll config

/-- Every statement of the tree has a token. -/
def NginxConfig.Proper (config : NginxConfig) : Prop := ProperAll config

/-- The grammar of config files: a statement is one or more words, and then a semicolon or a block
of statements. -/
inductive Statements : List Token → Prop
  | nil : Statements []
  | simple {words : List Str} {ts : List Token} : words ≠ [] → Statements ts →
      Statements (words.map .word ++ .semicolon :: ts)
  | block {words : List Str} {body ts : List Token} : words ≠ [] → Statements body →
      Statements ts → Statements (words.map .word ++ .opening :: (body ++ .closing :: ts))

/-! ## Trees, one statement after the other -/

namespace NginxConfig

@[simp] theorem flatten_nil : flatten [] = [] := rfl

@[simp] theorem flatten_cons (statement : NginxConfigStatement) (config : NginxConfig) :
    flatten (statement :: config) = statement.flatten ++ flatten config := rfl

@[simp] theorem flatten_append (config config' : NginxConfig) :
    flatten (config ++ config') = flatten config ++ flatten config' := by
  induction config with
  | nil => rfl
  | cons statement config ih =>
    rw [List.cons_append, flatten_cons, ih, flatten_cons, List.append_assoc]

@[simp] theorem proper_nil : Proper [] := trivial

@[simp] theorem proper_cons {statement : NginxConfigStatement} {config : NginxConfig} :
    Proper (statement :: config) ↔ statement.Proper ∧ Proper config := Iff.rfl

@[simp] theorem proper_append {config config' : NginxConfig} :
    Proper (config ++ config') ↔ Proper config ∧ Proper config' := by
  induction config with
  | nil => simp
  | cons statement config ih => rw [List.cons_append, proper_cons, ih, proper_cons, and_assoc]

end NginxConfig

namespace NginxConfigStatement

@[simp] theorem flatten_simple (tokens : List Str) :
    (mk tokens none).flatten = tokens.map .word ++ [.semicolon] := rfl

@[simp] theorem flatten_block (tokens : List Str) (config : NginxConfig) :
    (mk tokens (some config)).flatten =
      tokens.map .word ++ .opening :: (config.flatten ++ [.closing]) := rfl

@[simp] theorem proper_simple {tokens : List Str} : (mk tokens none).Proper ↔ tokens ≠ [] := Iff.rfl

@[simp] theorem proper_block {tokens : List Str} {config : NginxConfig} :
    (mk tokens (some config)).Proper ↔ tokens ≠ [] ∧ config.Proper := Iff.rfl

/-- A statement is written out as some tokens. -/
theorem flatten_ne_nil (statement : NginxConfigStatement) : statement.flatten ≠ [] := by
  obtain ⟨tokens, _ | config⟩ := statement <;> simp [flatten]

/-- A proper statement has a token. -/
theorem Proper.tokens_ne_nil {statement : NginxConfigStatement} (h : statement.Proper) :
    statement.tokens ≠ [] := by
  obtain ⟨tokens, _ | config⟩ := statement
  · exact h
  · exact h.1

end NginxConfigStatement

namespace NginxConfig

/-- A proper statement behind a proper config. -/
theorem Proper.concat {config : NginxConfig} (h : config.Proper) {statement : NginxConfigStatement}
    (hs : statement.Proper) : Proper (config ++ [statement]) :=
  proper_append.mpr ⟨h, hs, trivial⟩

/-- The induction over a tree: a statement without a block in front, or one with a block, of which
the claim is known. -/
theorem induction {motive : NginxConfig → Prop} (nil : motive [])
    (simple : ∀ tokens config, motive config → motive (.mk tokens none :: config))
    (block : ∀ tokens childBlock config, motive childBlock → motive config →
      motive (.mk tokens (some childBlock) :: config)) (config : NginxConfig) : motive config := by
  refine flattenAll.induct
    (fun statement => ∀ childBlock, statement.childBlock = some childBlock → motive childBlock)
    motive ?_ ?_ nil ?_ config
  · intro tokens childBlock h
    cases h
  · intro tokens config ih childBlock h
    exact Option.some.inj h ▸ ih
  · rintro ⟨tokens, _ | childBlock⟩ config ihchild ih
    · exact simple tokens config ih
    · exact block tokens childBlock config (ihchild childBlock rfl) ih

/-- The statements of a proper config are proper. -/
theorem Proper.of_mem {config : NginxConfig} (h : config.Proper) {statement : NginxConfigStatement}
    (hs : statement ∈ config) : statement.Proper := by
  obtain ⟨before, behind, rfl⟩ := List.append_of_mem hs
  exact (proper_append.mp h).2.1

/-- A config with a statement is written out as some tokens. -/
theorem flatten_ne_nil {config : NginxConfig} (h : config ≠ []) : config.flatten ≠ [] := by
  obtain ⟨statement, config, rfl⟩ := List.exists_cons_of_ne_nil h
  simp [statement.flatten_ne_nil]

end NginxConfig

/-- The tokens of a statement of a config are written out with it. -/
theorem word_mem_flatten {config : NginxConfig} {statement : NginxConfigStatement}
    (h : statement ∈ config) {w : Str} (hw : w ∈ statement.tokens) :
    .word w ∈ NginxConfig.flatten config := by
  obtain ⟨before, behind, rfl⟩ := List.append_of_mem h
  obtain ⟨tokens, _ | child⟩ := statement
  · simp [show w ∈ tokens from hw]
  · simp [show w ∈ tokens from hw]

/-! ## The grammar is what the proper trees are written out as -/

/-- A proper tree is written out as the grammar has it. -/
theorem statements_flatten {config : NginxConfig} (h : config.Proper) :
    Statements config.flatten := by
  induction config using NginxConfig.induction with
  | nil => exact .nil
  | simple tokens config ih =>
    obtain ⟨hne, hconfig⟩ := h
    rw [NginxConfig.flatten_cons, NginxConfigStatement.flatten_simple, List.append_assoc]
    exact .simple hne (ih hconfig)
  | block tokens childBlock config ihchild ih =>
    -- The block is closed in front of the statements that follow.
    obtain ⟨⟨hne, hchild⟩, hconfig⟩ := h
    rw [NginxConfig.flatten_cons, NginxConfigStatement.flatten_block, List.append_assoc,
      List.cons_append, List.append_assoc]
    exact .block hne (ihchild hchild) (ih hconfig)

/-- Tokens that follow the grammar are written out from a proper tree. -/
theorem exists_flatten {ts : List Token} (h : Statements ts) :
    ∃ config : NginxConfig, config.Proper ∧ config.flatten = ts := by
  induction h with
  | nil => exact ⟨[], trivial, rfl⟩
  | @simple words ts hne _ ih =>
    obtain ⟨config, hproper, rfl⟩ := ih
    exact ⟨.mk words none :: config, ⟨hne, hproper⟩, by simp⟩
  | @block words body ts hne _ _ ihbody ih =>
    obtain ⟨child, hchild, rfl⟩ := ihbody
    obtain ⟨config, hproper, rfl⟩ := ih
    exact ⟨.mk words (some child) :: config, ⟨⟨hne, hchild⟩, hproper⟩, by simp⟩

/-- The grammar is exactly what the proper trees are written out as. -/
theorem statements_iff {ts : List Token} :
    Statements ts ↔ ∃ config : NginxConfig, config.Proper ∧ config.flatten = ts :=
  ⟨exists_flatten, fun ⟨_, hproper, hflat⟩ => hflat ▸ statements_flatten hproper⟩

end CrazyCode.Config
