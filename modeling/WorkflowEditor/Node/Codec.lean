/-
  WorkflowEditor.Node.Codec
  ─────────────────────────
  **STORED CONFIGURATION AND EDITED FORM.**

  A configuration is stored in a shape that suits the engine and edited in
  one that suits a form.  Each codec owns one difference between the two:

      memory     — the last message of an enabled memory stands apart
      knowledge  — all settings but the query stand under one key
      groups     — variable groups are rows instead of an object
      rows key   — the entries of an object are rows
      base64 key — a text is stored in base64

  Decoding goes from stored to edited, encoding back.  Completing fills in
  what an edited form needs so that encoding can be undone.

  No Mathlib.
-/
import WorkflowEditor.Node.Kind
import WorkflowEditor.Node.Form
import WorkflowEditor.Text.Base64
import WorkflowEditor.Text.Utf8

namespace WorkflowEditor

/-- One difference between the stored and the edited shape. -/
inductive Codec where
  | memory
  | knowledge
  | groups
  | rows (key : String)
  | base64 (key : String)
  deriving Repr, DecidableEq

namespace Codec

/-! ## §1. The last message of a memory. -/

/-- Whether a configuration has its memory enabled. -/
def memoryEnabled (config : Fields) : Bool :=
  (((config.lookup "memory").bind (Json.field? "enable")).bind Json.bool?).getD false

/-- The message a memory starts with. -/
def memoryPrompt : Json :=
  .obj [("role", .str "user"), ("content", .str "\x7b\x7b sys.message \x7d\x7d")]

/-- Moves the last message into the memory. -/
def decodeMemory (config : Fields) : Fields :=
  if memoryEnabled config then
    match (config.lookup "messages").bind Json.arr?, (config.lookup "memory").bind Json.obj? with
    | some messages, some held =>
        match messages.getLast? with
        | some last =>
            (config.insert "messages" (.arr messages.dropLast)).insert "memory"
              (.obj (Fields.insert held "messages" last))
        | none => config
    | _, _ => config
  else config

/-- Moves the memory's message behind the others. -/
def encodeMemory (config : Fields) : Fields :=
  if memoryEnabled config then
    match (config.lookup "memory").bind Json.obj? with
    | some held =>
        match List.lookup "messages" held with
        | some last =>
            let config := config.insert "memory" (.obj (Fields.eraseSwap held "messages"))
            let messages := ((config.lookup "messages").bind Json.arr?).getD []
            config.insert "messages" (.arr (messages ++ [last]))
        | none => config
    | none => config
  else config

/-- Gives an enabled memory its message, and a place to move it to. -/
def completeMemory (form : Fields) : Fields :=
  if memoryEnabled form then
    let form :=
      match (form.lookup "messages").bind Json.arr? with
      | some _ => form
      | none => form.insert "messages" (.arr [])
    match (form.lookup "memory").bind Json.obj? with
    | some held =>
        if Fields.has held "messages" then form
        else form.insert "memory" (.obj (Fields.insert held "messages" memoryPrompt))
    | none => form
  else form

/-! ## §2. The settings of a retrieval. -/

/-- The key that gathers the settings of a retrieval. -/
def knowledgeKey : String := "knowledge_retrieval"

/-- Gathers every setting but the query under one key. -/
def decodeKnowledge (config : Fields) : Fields :=
  let isSetting (entry : String × Json) : Bool :=
    entry.1 != "query" && entry.1 != knowledgeKey
  let settings := config.filter isSetting
  let left := settings.foldl (fun left entry => Fields.eraseSwap left entry.1) config
  Fields.insert left knowledgeKey (.obj settings)

/-- Spreads the gathered settings out again. -/
def encodeKnowledge (config : Fields) : Fields :=
  let left := config.eraseSwap knowledgeKey
  match (config.lookup knowledgeKey).bind Json.obj? with
  | some settings => Fields.insertAll left settings
  | none => left

/-! ## §3. Rows. -/

/-- The entries of an object as rows that name each under `nameKey`. -/
def toRows (nameKey : String) (entries : Fields) : List Json :=
  entries.map fun entry => .obj [(nameKey, .str entry.1), ("value", entry.2)]

/-- The entry that a row stands for; a row without a name stands for none. -/
def pairOfRow? (nameKey : String) (row : Json) : Option (String × Json) :=
  ((row.field? nameKey).bind Json.str?).map fun name =>
    (name, (row.field? "value").getD .null)

/-- The object that rows stand for. -/
def ofRows (nameKey : String) (items : List Json) : Fields :=
  Fields.insertAll [] (items.filterMap (pairOfRow? nameKey))

/-- Turns an object under `key` into rows. -/
def decodeRows (nameKey key : String) (config : Fields) : Fields :=
  match (config.lookup key).bind Json.obj? with
  | some entries => config.insert key (.arr (toRows nameKey entries))
  | none => config

/-- Turns rows under `key` into an object. -/
def encodeRows (nameKey key : String) (config : Fields) : Fields :=
  match (config.lookup key).bind Json.arr? with
  | some items => config.insert key (.obj (ofRows nameKey items))
  | none => config

/-- Whether an aggregator groups its variables. -/
def groupMode (config : Fields) : Bool :=
  ((config.lookup "group").bind Json.bool?).getD false

/-! ## §4. Base64. -/

/-- The text that a stored text encodes. -/
def decodedText? (stored : String) : Option String :=
  (Base64.decode? stored.toList).bind Utf8.strict?

/-- Decodes the text under `key`; a text that encodes none is kept. -/
def decodeBase64 (key : String) (config : Fields) : Fields :=
  match ((config.lookup key).bind Json.str?).bind decodedText? with
  | some text => config.insert key (.str text)
  | none => config

/-- Encodes the text under `key`. -/
def encodeBase64 (key : String) (config : Fields) : Fields :=
  match (config.lookup key).bind Json.str? with
  | some text =>
      config.insert key (.str (String.ofList (Base64.encode text.toUTF8.toList)))
  | none => config

/-! ## §5. One codec. -/

/-- From the stored to the edited shape. -/
def decode : Codec → Fields → Fields
  | .memory, config => decodeMemory config
  | .knowledge, config => decodeKnowledge config
  | .groups, config =>
      if groupMode config then decodeRows "key" "group_variables" config else config
  | .rows key, config => decodeRows "name" key config
  | .base64 key, config => decodeBase64 key config

/-- From the edited to the stored shape. -/
def encode : Codec → Fields → Fields
  | .memory, config => encodeMemory config
  | .knowledge, config => encodeKnowledge config
  | .groups, config =>
      if groupMode config then encodeRows "key" "group_variables" config else config
  | .rows key, config => encodeRows "name" key config
  | .base64 key, config => encodeBase64 key config

/-- Fills in what decoding needs to undo encoding. -/
def complete : Codec → Fields → Fields
  | .memory, form => completeMemory form
  | _, form => form

end Codec

/-! ## §6. The codecs of a kind. -/

namespace Kind

/-- The codecs of a kind, in the order in which they decode. -/
def codecs : Kind → List Codec
  | .llm => [.memory]
  | .knowledgeRetrieval => [.knowledge]
  | .varAggregator => [.groups]
  | .httpRequest => [.rows "headers", .rows "params"]
  | .code => [.base64 "code"]
  | _ => []

/-- The form of a stored configuration. -/
def decodeConfig (kind : Kind) (config : Fields) : Form :=
  ⟨kind.codecs.foldl (fun config codec => codec.decode config) config⟩

/-- A form as edited field by field, completed. -/
def completeForm (kind : Kind) (form : Form) : Form :=
  ⟨kind.codecs.foldl (fun fields codec => codec.complete fields) form.fields⟩

/-- The stored configuration of a form. -/
def encodeForm (kind : Kind) (form : Form) : Fields :=
  kind.codecs.reverse.foldl (fun config codec => codec.encode config) form.fields

end Kind

end WorkflowEditor
