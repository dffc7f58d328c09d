import HayaSend.Services.EmailIntake

/-!
# Template versions

The versions of a template in `template-service.ts`: their variables and placeholders, the checks a
version passes before it is stored (`validateVersion`), and how one is rendered
(`renderTemplateVersion`).
-/

namespace HayaSend

/-! ## Records -/

inductive TemplateVariableType
  | string
  | number
  deriving DecidableEq, Repr

structure TemplateVariable where
  id : String
  key : String
  type : TemplateVariableType
  fallbackValue : Option TemplateValue
  createdAt : ℕ
  updatedAt : ℕ
  deriving DecidableEq, Repr

structure TemplateVersion where
  id : String
  name : String
  html : String
  text : Option String := none
  alias_ : Option String := none
  from_ : Option String := none
  subject : Option String := none
  replyTo : Option (List String) := none
  variables_ : List TemplateVariable
  createdAt : ℕ
  sourceVersionId : Option String := none
  deriving DecidableEq, Repr

structure TemplateRecord where
  id : String
  createdAt : ℕ
  updatedAt : ℕ
  revision : ℕ
  draft : TemplateVersion
  published : Option TemplateVersion := none
  publishedAt : Option ℕ := none
  deriving DecidableEq, Repr

structure TemplateVariableInput where
  key : String
  type : TemplateVariableType
  fallbackValue : Option TemplateValue := none
  deriving DecidableEq, Repr

def maxTemplateBytes : ℕ := 128 * 1024
def maxRenderedTemplateBytes : ℕ := 1024 * 1024

/-! ## Texts -/

/-- `[A-Za-z0-9_]` -/
def isVariableChar (c : Char) : Bool := c.isAlphanum || c == '_'

/-- `VARIABLE_KEY_PATTERN` -/
def isVariableKey (key : String) : Bool :=
  decide (1 ≤ key.length) && decide (key.length ≤ 50) && key.toList.all isVariableChar

/-- `[a-z0-9]` -/
def isAliasEnd (c : Char) : Bool := c.isDigit || c.isLower

/-- `ALIAS_PATTERN` -/
def isAlias (alias_ : String) : Bool :=
  !"tmpl_".toList.isPrefixOf alias_.toList && alias_.toList.head?.any isAliasEnd &&
    alias_.toList.getLast?.any isAliasEnd &&
    alias_.toList.all fun c => isAliasEnd c || c == '_' || c == '-'

/-- The placeholder `VARIABLE_PATTERN` finds at the start of a text: its key and how long it is. -/
def placeholder (cs : List Char) : Option (String × ℕ) :=
  match cs with
  | '\x7b' :: '\x7b' :: '\x7b' :: inner =>
    let fromKey := inner.dropWhile isWhiteSpace
    let key := fromKey.takeWhile isVariableChar
    match (fromKey.drop key.length).dropWhile isWhiteSpace with
    | '\x7d' :: '\x7d' :: '\x7d' :: rest =>
      if 1 ≤ key.length ∧ key.length ≤ 50 then
        some (String.ofList key, cs.length - rest.length)
      else none
    | _ => none
  | _ => none

/-- A text as its characters and the keys of its placeholders; `skip` characters of a placeholder
are still to be passed. -/
def splitPlaceholders : ℕ → List Char → List (Char ⊕ String)
  | _, [] => []
  | skip + 1, _ :: cs => splitPlaceholders skip cs
  | 0, c :: cs =>
    match placeholder (c :: cs) with
    | some (key, length) => .inr key :: splitPlaceholders (length - 1) cs
    | none => .inl c :: splitPlaceholders 0 cs

/-! ## Variables -/

def TemplateValue.type : TemplateValue → TemplateVariableType
  | text _ => .string
  | number _ => .number

def TemplateVariableType.name : TemplateVariableType → String
  | string => "string"
  | number => "number"

/-- `Number.isFinite` and `Number.isSafeInteger`, of the text of a number. -/
def isSafeInteger (number : String) : Bool :=
  number.toInt?.any fun n => decide (n.natAbs ≤ 9007199254740991)

/-- The checks of a fallback value and of a given value. -/
def validateValue (key : String) (value : TemplateValue) : Except Failure Unit :=
  match value with
  | .text value => throwIf (decide (2000 < utf16Length value))
      (.validation ("Template variable " ++ key ++ " must not exceed 2000 characters."))
  | .number value => throwIf (!isSafeInteger value)
      (.validation ("Template variable " ++ key ++ " must be a finite safe integer."))

def reservedVariables : List String :=
  ["FIRST_NAME", "LAST_NAME", "EMAIL", "UNSUBSCRIBE_URL", "RESEND_UNSUBSCRIBE_URL", "contact",
    "this"]

/-- The loop of `validateVariables`, with the keys `seen`. -/
def validateVariablesFrom (seen : List String) :
    List TemplateVariableInput → Except Failure Unit
  | [] => .ok ()
  | variable_ :: variables_ => do
    throwIf (!isVariableKey variable_.key) (.validation
      "Template variable keys must contain 1–50 ASCII letters, numbers, or underscores.")
    throwIf (seen.contains variable_.key) (.validation
      ("Template variable " ++ variable_.key ++ " is defined more than once."))
    throwIf (reservedVariables.contains variable_.key) (.validation
      ("Template variable " ++ variable_.key ++ " is reserved."))
    throwIf (variable_.fallbackValue.any fun value => value.type != variable_.type) (.validation
      ("Template variable " ++ variable_.key ++ " requires a " ++ variable_.type.name ++
        " fallback value."))
    variable_.fallbackValue.forM (validateValue variable_.key)
    validateVariablesFrom (variable_.key :: seen) variables_

/-- `validateVariables` -/
def validateVariables (variables_ : List TemplateVariableInput) : Except Failure Unit := do
  throwIf (decide (50 < variables_.length))
    (.validation "A template may define at most 50 variables.")
  validateVariablesFrom [] variables_

/-- `variableRecords`; a variable keeps the id of the previous one with its key. -/
def variableRecords (variableId : ℕ → String) (inputs : List TemplateVariableInput) (now : ℕ)
    (previous : List TemplateVariable) : Except Failure (List TemplateVariable) := do
  validateVariables inputs
  return inputs.mapIdx fun i input =>
    let existing := previous.reverse.find? (·.key == input.key)
    { id := (existing.map (·.id)).getD (variableId i)
      key := input.key
      type := input.type
      fallbackValue := input.fallbackValue
      createdAt := (existing.map (·.createdAt)).getD now
      updatedAt := now }

/-! ## The checks of a version -/

def TemplateVariable.toJson (v : TemplateVariable) : Json :=
  .obj [("id", .str v.id), ("key", .str v.key), ("type", .str v.type.name),
    ("fallback_value", (v.fallbackValue.map TemplateValue.toJson).getD .null),
    ("created_at", .str (toISOString v.createdAt)), ("updated_at", .str (toISOString v.updatedAt))]

namespace TemplateVersion

/-- `templateBytes` -/
def bytes (version : TemplateVersion) : ℕ :=
  (Json.ofFields [("name", some (.str version.name)), ("html", some (.str version.html)),
    ("text", version.text.map .str), ("alias", version.alias_.map .str),
    ("from", version.from_.map .str), ("subject", version.subject.map .str),
    ("reply_to", version.replyTo.map fun addresses => .arr (addresses.map .str)),
    ("variables", some (.arr (version.variables_.map TemplateVariable.toJson)))]
    ).stringify.utf8ByteSize

/-- `referencedVariables` -/
def referencedVariables (version : TemplateVersion) : List String :=
  (([some version.html, version.text, version.from_, version.subject].reduceOption ++
    version.replyTo.getD []).flatMap fun field : String =>
      (splitPlaceholders 0 field.toList).filterMap Sum.getRight?).eraseDups

/-- The fields that become headers, with their labels. -/
def headers (version : TemplateVersion) : List (String × String) :=
  (version.from_.toList.map ("from", ·)) ++ (version.subject.toList.map ("subject", ·)) ++
    ((version.replyTo.getD []).map ("reply_to", ·))

/-- `validateVersion` -/
def validate (version : TemplateVersion) : Except Failure Unit := do
  throwIf ((trim version.name.toList).isEmpty || decide (256 < utf16Length version.name))
    (.validation "Template name must contain between 1 and 256 characters.")
  throwIf (version.html == "") (.validation "Template HTML is required.")
  throwIf (version.alias_.any fun a => decide (128 < utf16Length a) || !isAlias a)
    (.validation "Template alias is invalid.")
  version.headers.forM fun field =>
    throwIf (field.2.toList.any fun c => c == '\r' || c == '\n')
      (.validation ("Template " ++ field.1 ++ " must not contain line breaks."))
  throwIf (decide (maxTemplateBytes < version.bytes))
    (.validation "A template version must not exceed 131072 bytes.")
  version.referencedVariables.forM fun key =>
    throwIf (!(version.variables_.map (·.key)).contains key)
      (.validation ("Template variable " ++ key ++ " is used but not declared."))

end TemplateVersion

/-! ## Rendering -/

structure RenderTemplateInput where
  from_ : Option String := none
  subject : Option String := none
  replyTo : Option (List String) := none
  variables_ : Option (List (String × TemplateValue)) := none

/-- What every object has under these names is neither a string nor a number. -/
def inheritedNames : List String :=
  ["constructor", "toString", "valueOf", "hasOwnProperty", "isPrototypeOf",
    "propertyIsEnumerable", "toLocaleString", "__proto__", "__defineGetter__",
    "__defineSetter__", "__lookupGetter__", "__lookupSetter__"]

/-- The value of a variable. -/
def renderedValue (provided : List (String × TemplateValue)) (variable_ : TemplateVariable) :
    Except Failure (String × String) := do
  let given := provided.lookup variable_.key
  throwIf (given.isNone && inheritedNames.contains variable_.key) (.validation
    ("Template variable " ++ variable_.key ++ " must be a " ++ variable_.type.name ++ "."))
  match given.or variable_.fallbackValue with
  | none => .error (.validation ("Template variable " ++ variable_.key ++ " requires a value."))
  | some value =>
    throwIf (value.type != variable_.type) (.validation
      ("Template variable " ++ variable_.key ++ " must be a " ++ variable_.type.name ++ "."))
    validateValue variable_.key value
    return (variable_.key, match value with | .text value => value | .number value => value)

/-- `replaceAll` of a character. -/
def replaceAll (c : Char) (replacement : String) (cs : List Char) : List Char :=
  cs.flatMap fun d => if d == c then replacement.toList else [d]

/-- The replacements of `renderValue` in HTML, one after the other. -/
def escapeHtml (cs : List Char) : List Char :=
  replaceAll '\'' "&#39;" (replaceAll '"' "&quot;" (replaceAll '>' "&gt;" (replaceAll '<' "&lt;"
    (replaceAll '&' "&amp;" cs))))

/-- `renderValue`. Of two values under one key the later counts. -/
def renderValue (value : String) (values : List (String × String)) (escape : Bool) : String :=
  String.ofList ((splitPlaceholders 0 value.toList).flatMap fun
    | .inl c => [c]
    | .inr key =>
      let replacement := ((values.reverse.lookup key).getD "").toList
      if escape then escapeHtml replacement else replacement)

/-- `ensureSafeRenderedHeader` -/
def ensureSafeRenderedHeader (label value : String) : Except Failure Unit := do
  throwIf (value.toList.any fun c => c == '\r' || c == '\n')
    (.validation ("Rendered template " ++ label ++ " must not contain line breaks."))
  throwIf (decide (998 < value.utf8ByteSize))
    (.validation ("Rendered template " ++ label ++ " must not exceed 998 bytes."))

/-- `renderTemplateVersion` -/
def renderTemplateVersion (p : Platform) (version : TemplateVersion) (input : RenderTemplateInput)
    (operation : String) : Except Failure RenderedTemplate := do
  let provided := input.variables_.getD []
  throwIf (decide (50 < provided.length)) (.validation
    ("A template " ++ operation ++ " may provide at most 50 variables."))
  provided.forM fun entry =>
    throwIf (!(version.variables_.map (·.key)).contains entry.1)
      (.validation ("Template variable " ++ entry.1 ++ " is not declared."))
  let values ← version.variables_.mapM (renderedValue provided)
  let sender := input.from_.or (version.from_.map (renderValue · values false))
  let subject := input.subject.or (version.subject.map (renderValue · values false))
  let replyTo := input.replyTo.or (version.replyTo.map (·.map (renderValue · values false)))
  let html := renderValue version.html values true
  throwIf (decide (maxRenderedTemplateBytes < html.utf8ByteSize))
    (.validation "Rendered template content must not exceed 1048576 bytes.")
  let text := match version.text with
    | none => p.convertHtml html maxRenderedTemplateBytes
    | some text => renderValue text values false
  throwIf (decide (maxRenderedTemplateBytes < html.utf8ByteSize + text.utf8ByteSize))
    (.validation "Rendered template content must not exceed 1048576 bytes.")
  (sender.filter (· != "")).forM (ensureSafeRenderedHeader "from")
  (subject.filter (· != "")).forM (ensureSafeRenderedHeader "subject")
  (replyTo.getD []).forM (ensureSafeRenderedHeader "reply_to")
  return { from_ := sender, subject := subject, html := html, text := text, replyTo := replyTo }

end HayaSend
