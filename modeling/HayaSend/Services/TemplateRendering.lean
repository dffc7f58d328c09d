import HayaSend.Foundations.LeftmostMatches
import HayaSend.Foundations.Segments
import HayaSend.Services.TemplateVersions
import Mathlib.Data.List.ReduceOption
import Mathlib.Data.List.TakeWhile

/-!
# Rendering a template

`renderTemplateVersion` replaces the placeholders of a version's fields by the values of their
variables. `rendering_substitutes` says that it is one pass over the fields: what stands between
the leftmost placeholders is kept, each placeholder becomes the value of its variable, and no value
is read again; in the HTML the values are escaped.

`fallbacks_used_iff` is about variables that are given no value. Their fallbacks count, except for
the names that every object inherits: such a variable is found on the prototype of the given
variables, and the rendering fails.
-/

namespace HayaSend

/-! ## Placeholders -/

/-- `VARIABLE_PATTERN`, of a whole word. -/
def IsPlaceholder (word : List Char) (key : String) : Prop :=
  ∃ before after : List Char,
    word = "\x7b\x7b\x7b".toList ++ (before ++ (key.toList ++ (after ++ "\x7d\x7d\x7d".toList))) ∧
    before.all isWhiteSpace = true ∧ after.all isWhiteSpace = true ∧ isVariableKey key = true

theorem not_isWhiteSpace_of_isVariableChar {c : Char} (h : isVariableChar c = true) :
    isWhiteSpace c = false := by
  have hrange : 33 ≤ c.toNat ∧ c.toNat ≤ 122 := by
    rw [isVariableChar, Bool.or_eq_true, beq_iff_eq] at h
    rcases h with h | rfl
    · have := toNat_of_isAlphanum h
      omega
    · decide
  simp only [isWhiteSpace, Bool.or_eq_false_iff, Bool.and_eq_false_iff, decide_eq_false_iff_not,
    List.contains_eq_mem, List.mem_cons, List.not_mem_nil, or_false]
  omega

/-- White space, then something else. -/
theorem dropWhile_whiteSpace {before rest : List Char} (hb : before.all isWhiteSpace = true)
    (hrest : ∀ c ∈ rest.head?, isWhiteSpace c = false) :
    (before ++ rest).dropWhile isWhiteSpace = rest := by
  rw [List.dropWhile_append_of_pos (List.all_eq_true.mp hb)]
  cases rest with
  | nil => rfl
  | cons c rest => rw [List.dropWhile_cons_of_neg (by rw [hrest c rfl]; exact Bool.false_ne_true)]

/-- A key, then something else. -/
theorem takeWhile_key {key rest : List Char} (hk : key.all isVariableChar = true)
    (hrest : ∀ c ∈ rest.head?, isVariableChar c = false) :
    (key ++ rest).takeWhile isVariableChar = key := by
  rw [List.takeWhile_append_of_pos (List.all_eq_true.mp hk)]
  cases rest with
  | nil => rw [List.takeWhile_nil, List.append_nil]
  | cons c rest =>
    rw [List.takeWhile_cons_of_neg (by rw [hrest c rfl]; exact Bool.false_ne_true), List.append_nil]

theorem isVariableKey_iff {key : String} : isVariableKey key = true ↔
    (1 ≤ key.toList.length ∧ key.toList.length ≤ 50) ∧ key.toList.all isVariableChar = true := by
  simp [isVariableKey, String.length_toList]

theorem drop_takeWhile_length (p : Char → Bool) (cs : List Char) :
    cs.drop (cs.takeWhile p).length = cs.dropWhile p := by
  induction cs with
  | nil => rfl
  | cons c cs ih =>
    by_cases h : p c = true
    · rw [List.takeWhile_cons_of_pos h, List.dropWhile_cons_of_pos h, List.length_cons,
        List.drop_succ_cons, ih]
    · rw [List.takeWhile_cons_of_neg h, List.dropWhile_cons_of_neg h, List.length_nil,
        List.drop_zero]

theorem exists_whiteSpace (cs : List Char) : ∃ before rest, cs = before ++ rest ∧
    before.all isWhiteSpace = true ∧ cs.dropWhile isWhiteSpace = rest :=
  ⟨cs.takeWhile isWhiteSpace, cs.dropWhile isWhiteSpace, List.takeWhile_append_dropWhile.symm,
    List.all_eq_true.mpr fun _ hc => List.mem_takeWhile_imp hc, rfl⟩

theorem placeholder_of_isPlaceholder {word rest : List Char} {key : String}
    (h : IsPlaceholder word key) : placeholder (word ++ rest) = some (key, word.length) := by
  obtain ⟨before, after, rfl, hb, ha, hk⟩ := h
  obtain ⟨⟨hone, hfifty⟩, hchars⟩ := isVariableKey_iff.mp hk
  have hdigit : ∀ c ∈ key.toList, isVariableChar c = true := List.all_eq_true.mp hchars
  -- the text behind the opening braces, the white space, the key
  set closing := '\x7d' :: '\x7d' :: '\x7d' :: rest with hclosing
  have htext : "\x7b\x7b\x7b".toList ++ (before ++ (key.toList ++ (after ++
      "\x7d\x7d\x7d".toList))) ++ rest =
      '\x7b' :: '\x7b' :: '\x7b' :: (before ++ (key.toList ++ (after ++ closing))) := by
    simp [hclosing]
  have hkeyed : (before ++ (key.toList ++ (after ++ closing))).dropWhile isWhiteSpace =
      key.toList ++ (after ++ closing) := by
    refine dropWhile_whiteSpace hb fun c hc => ?_
    rw [List.head?_append_of_ne_nil _ (List.ne_nil_of_length_pos hone)] at hc
    exact not_isWhiteSpace_of_isVariableChar (hdigit c (List.mem_of_mem_head? hc))
  have hkey : (key.toList ++ (after ++ closing)).takeWhile isVariableChar = key.toList := by
    refine takeWhile_key hchars fun c hc => ?_
    cases after with
    | nil =>
      obtain rfl : '\x7d' = c := Option.some.inj hc
      decide
    | cons d after =>
      obtain rfl : d = c := Option.some.inj hc
      have hspace := List.all_eq_true.mp ha d List.mem_cons_self
      by_contra hvar
      rw [not_isWhiteSpace_of_isVariableChar (by simpa using hvar)] at hspace
      cases hspace
  have hclosed : (after ++ closing).dropWhile isWhiteSpace = closing := by
    refine dropWhile_whiteSpace ha fun c hc => ?_
    obtain rfl : '\x7d' = c := Option.some.inj hc
    decide
  rw [htext, placeholder, hkeyed, hkey, List.drop_left, hclosed, hclosing]
  change (if 1 ≤ key.toList.length ∧ key.toList.length ≤ 50 then
    some (String.ofList key.toList, _) else none) = _
  rw [if_pos ⟨hone, hfifty⟩, String.ofList_toList, Option.some.injEq, Prod.mk.injEq]
  refine ⟨rfl, ?_⟩
  rw [← hclosing, ← htext]
  simp only [List.length_append]
  omega

theorem isPlaceholder_of_placeholder {cs : List Char} {key : String} {n : ℕ}
    (h : placeholder cs = some (key, n)) :
    ∃ word rest, cs = word ++ rest ∧ word.length = n ∧ IsPlaceholder word key := by
  unfold placeholder at h
  split at h
  · rename_i inner
    dsimp only at h
    split at h
    · rename_i rest hrest
      split_ifs at h with hlength
      rw [Option.some.injEq, Prod.mk.injEq] at h
      obtain ⟨rfl, rfl⟩ := h
      rw [drop_takeWhile_length] at hrest
      -- what is passed in turn: white space, the key, white space
      obtain ⟨before, fromKey, hinner, hbefore, hkeyed⟩ := exists_whiteSpace inner
      obtain ⟨after, closing, hafter, hspace, hclosed⟩ :=
        exists_whiteSpace (fromKey.dropWhile isVariableChar)
      rw [hkeyed] at hrest hlength ⊢
      rw [hclosed] at hrest
      subst hrest
      have hkey : fromKey = fromKey.takeWhile isVariableChar ++ (after ++
          '\x7d' :: '\x7d' :: '\x7d' :: rest) := by
        rw [← hafter, List.takeWhile_append_dropWhile]
      refine ⟨"\x7b\x7b\x7b".toList ++ (before ++ (fromKey.takeWhile isVariableChar ++ (after ++
        "\x7d\x7d\x7d".toList))), rest, ?_, ?_, before, after, ?_, hbefore, hspace, ?_⟩
      · rw [hinner]
        nth_rewrite 1 [hkey]
        simp
      · have hlengths := congrArg List.length hkey
        simp only [List.length_cons, List.length_append] at hlengths
        have hopening : "\x7b\x7b\x7b".toList.length = 3 := rfl
        have hclosing : "\x7d\x7d\x7d".toList.length = 3 := rfl
        simp only [hinner, List.length_cons, List.length_append]
        omega
      · simp only [String.toList_ofList]
      · refine isVariableKey_iff.mpr ⟨?_, ?_⟩
        · rwa [String.toList_ofList]
        · rw [String.toList_ofList, List.all_eq_true]
          exact fun c hc => List.mem_takeWhile_imp hc
    · cases h
  · cases h

theorem placeholder_eq_some {cs : List Char} {key : String} {n : ℕ} :
    placeholder cs = some (key, n) ↔
      ∃ word rest, cs = word ++ rest ∧ word.length = n ∧ IsPlaceholder word key := by
  constructor
  · exact isPlaceholder_of_placeholder
  · rintro ⟨word, rest, rfl, rfl, h⟩
    exact placeholder_of_isPlaceholder h

theorem placeholder_finds : Finds placeholder IsPlaceholder where
  some_iff := placeholder_eq_some
  ne_nil := by
    rintro word key ⟨before, after, rfl, -⟩
    exact List.cons_ne_nil _ _

theorem splitPlaceholders_eq_scan (skip : ℕ) (cs : List Char) :
    splitPlaceholders skip cs = scan placeholder skip cs := by
  induction cs generalizing skip with
  | nil => cases skip <;> rfl
  | cons c cs ih =>
    cases skip with
    | zero =>
      rw [splitPlaceholders, scan]
      cases placeholder (c :: cs) with
      | none => simp only [ih]
      | some found => simp only [ih]
    | succ skip => exact ih skip

/-! ## Values -/

/-- `String(value)` -/
def TemplateValue.asString : TemplateValue → String
  | text value => value
  | number value => value

/-- The value of the variable of a key: what is given, else the fallback. Of two declarations of one
key the later counts. -/
def TemplateVersion.valueOf (version : TemplateVersion) (provided : List (String × TemplateValue))
    (key : String) : Option String :=
  (version.variables_.reverse.find? (·.key == key)).bind fun v =>
    ((provided.lookup v.key).or v.fallbackValue).map TemplateValue.asString

theorem renderedValue_eq_ok {provided : List (String × TemplateValue)} {v : TemplateVariable}
    {entry : String × String} : renderedValue provided v = .ok entry ↔
      ((provided.lookup v.key).isNone && inheritedNames.contains v.key) = false ∧
      ∃ value, (provided.lookup v.key).or v.fallbackValue = some value ∧ value.type = v.type ∧
        validateValue v.key value = .ok () ∧ entry = (v.key, value.asString) := by
  unfold renderedValue
  rw [bind_eq_ok]
  constructor
  · rintro ⟨_, hinherited, h⟩
    refine ⟨throwIf_eq_ok.mp hinherited, ?_⟩
    split at h
    · cases h
    · rename_i value hvalue
      obtain ⟨_, htype, h⟩ := bind_eq_ok.mp h
      obtain ⟨_, hvalid, h⟩ := bind_eq_ok.mp h
      rw [pure_eq_ok] at h
      refine ⟨value, hvalue, by simpa using htype, hvalid, h ▸ ?_⟩
      cases value <;> rfl
  · rintro ⟨hinherited, value, hvalue, htype, hvalid, rfl⟩
    refine ⟨(), by rw [throwIf_eq_ok, hinherited], ?_⟩
    rw [hvalue]
    refine bind_eq_ok.mpr ⟨(), by simp [htype], bind_eq_ok.mpr ⟨(), hvalid, ?_⟩⟩
    cases value <;> rfl

/-- The values of a version's variables, looked up as `renderValue` does. -/
theorem lookup_rendered {provided : List (String × TemplateValue)} {version : TemplateVersion}
    {values : List (String × String)}
    (h : version.variables_.mapM (renderedValue provided) = .ok values) (key : String) :
    values.reverse.lookup key = version.valueOf provided key := by
  have hrows := List.forall₂_reverse_iff.mpr (mapM_eq_ok.mp h)
  unfold TemplateVersion.valueOf
  generalize version.variables_.reverse = variables_ at hrows ⊢
  generalize values.reverse = entries at hrows ⊢
  induction hrows with
  | nil => rfl
  | @cons v entry vs es hentry _ ih =>
    obtain ⟨-, value, hvalue, -, -, rfl⟩ := renderedValue_eq_ok.mp hentry
    rw [List.lookup_cons, List.find?_cons]
    by_cases hkey : v.key = key
    · subst hkey
      simp only [beq_self_eq_true]
      rw [Option.bind_some, hvalue]
      rfl
    · have hne : (v.key == key) = false := beq_false_of_ne hkey
      have hne' : (key == v.key) = false := beq_false_of_ne (Ne.symm hkey)
      simp only [hne, hne']
      exact ih

/-- A declared variable has a value when the version is rendered. -/
theorem exists_valueOf {provided : List (String × TemplateValue)} {version : TemplateVersion}
    {values : List (String × String)}
    (h : version.variables_.mapM (renderedValue provided) = .ok values) {key : String}
    (hkey : key ∈ version.variables_.map (·.key)) :
    ∃ value, version.valueOf provided key = some value := by
  obtain ⟨u, hu, hukey⟩ := List.mem_map.mp hkey
  have hfound : (version.variables_.reverse.find? (·.key == key)).isSome = true :=
    List.find?_isSome.mpr ⟨u, List.mem_reverse.mpr hu, by simpa using hukey⟩
  obtain ⟨v, hv⟩ := Option.isSome_iff_exists.mp hfound
  have hmem := List.mem_reverse.mp (List.mem_of_find?_eq_some hv)
  obtain ⟨entry, hentry⟩ := (mapM_eq_ok_filterMap.mp h).1 v hmem
  obtain ⟨-, value, hvalue, -⟩ := renderedValue_eq_ok.mp hentry
  exact ⟨value.asString, by rw [TemplateVersion.valueOf, hv, Option.bind_some, hvalue]; rfl⟩

/-! ## Escaping -/

/-- The characters that HTML does not show as they are. -/
def specialCharacters : List Char := ['&', '<', '>', '"', '\'']

/-- What the escaper writes for them. -/
def entities : List (List Char) :=
  ["&amp;".toList, "&lt;".toList, "&gt;".toList, "&quot;".toList, "&#39;".toList]

/-- Plain characters and entities. -/
def IsEscaped (cs : List Char) : Prop :=
  ∃ parts : List (List Char), cs = parts.flatten ∧
    ∀ part ∈ parts, (∃ c, part = [c] ∧ c ∉ specialCharacters) ∨ part ∈ entities

/-- What the replacements make of one character. -/
def escapeHtmlChar (c : Char) : List Char :=
  if c == '&' then "&amp;".toList
  else if c == '<' then "&lt;".toList
  else if c == '>' then "&gt;".toList
  else if c == '"' then "&quot;".toList
  else if c == '\'' then "&#39;".toList
  else [c]

theorem escapeHtml_append (as bs : List Char) :
    escapeHtml (as ++ bs) = escapeHtml as ++ escapeHtml bs := by
  simp only [escapeHtml, replaceAll, List.flatMap_append]

/-- The ampersand is replaced first, so no replacement is replaced again. -/
theorem escapeHtml_singleton (c : Char) : escapeHtml [c] = escapeHtmlChar c := by
  by_cases hamp : c = '&'
  · subst hamp
    decide
  by_cases hlt : c = '<'
  · subst hlt
    decide
  by_cases hgt : c = '>'
  · subst hgt
    decide
  by_cases hquot : c = '"'
  · subst hquot
    decide
  by_cases hapos : c = '\''
  · subst hapos
    decide
  simp [escapeHtml, replaceAll, escapeHtmlChar, hamp, hlt, hgt, hquot, hapos]

/-- **The replacements escape character by character.** -/
theorem escapeHtml_eq_flatMap (cs : List Char) : escapeHtml cs = cs.flatMap escapeHtmlChar := by
  induction cs with
  | nil => rfl
  | cons c cs ih =>
    rw [List.flatMap_cons, ← ih, ← escapeHtml_singleton, ← escapeHtml_append]
    rfl

theorem isEscaped_escapeHtml (cs : List Char) : IsEscaped (escapeHtml cs) := by
  refine ⟨cs.map escapeHtmlChar, by rw [escapeHtml_eq_flatMap, List.flatMap_def], ?_⟩
  rw [List.forall_mem_map]
  intro c _
  unfold escapeHtmlChar entities specialCharacters
  split_ifs with hamp hlt hgt hquot hapos
  · exact Or.inr (by simp)
  · exact Or.inr (by simp)
  · exact Or.inr (by simp)
  · exact Or.inr (by simp)
  · exact Or.inr (by simp)
  · exact Or.inl ⟨c, rfl, by simp_all⟩

/-! ## Fields -/

/-- What a segment becomes: a literal stays, a placeholder becomes the value of its key. -/
def Segment.Becomes (value : String → Option String) (write : List Char → List Char) :
    Segment Char String → List Char → Prop
  | literal text, part => part = text
  | hit _ key, part => ∃ v, value key = some v ∧ part = write v.toList

/-- The result has for every segment of the field, in order, what it becomes. -/
structure Substituted (value : String → Option String) (write : List Char → List Char)
    (field result : String) : Prop where
  exists_segments : ∃ segments, Leftmost IsPlaceholder field.toList segments
  parts : ∀ segments, Leftmost IsPlaceholder field.toList segments →
    ∃ parts, List.Forall₂ (Segment.Becomes value write) segments parts ∧
      result.toList = parts.flatten

/-- **Rendering a field is one pass over it.** -/
theorem renderValue_substituted {values : List (String × String)} {value : String → Option String}
    (hvalue : ∀ key, values.reverse.lookup key = value key) {field : String}
    (hdeclared : ∀ key, .inr key ∈ splitPlaceholders 0 field.toList → ∃ v, value key = some v)
    (escape : Bool) :
    Substituted value (if escape then escapeHtml else id) field
      (renderValue field values escape) where
  exists_segments := placeholder_finds.exists_leftmost field.toList
  parts := by
    intro segments hl
    have hscan := placeholder_finds.scan_of_leftmost hl
    rw [← splitPlaceholders_eq_scan] at hscan
    unfold renderValue
    rw [hscan] at hdeclared ⊢
    rw [String.toList_ofList, List.flatMap_assoc, List.flatMap_def]
    refine ⟨_, ?_, rfl⟩
    rw [List.forall₂_map_right_iff, List.forall₂_same]
    intro segment hsegment
    cases segment with
    | literal text =>
      show (text.map Sum.inl).flatMap _ = text
      rw [List.flatMap_map]
      exact List.flatMap_singleton' text
    | hit word key =>
      obtain ⟨v, hv⟩ := hdeclared key (List.mem_flatMap.mpr
        ⟨_, hsegment, List.mem_singleton.mpr rfl⟩)
      refine ⟨v, hv, ?_⟩
      simp only [Segment.pieces, List.flatMap_singleton, hvalue key, hv, Option.getD_some]
      cases escape <;> rfl

/-! ## Versions -/

/-- The fields in which placeholders count. -/
def TemplateVersion.fields (version : TemplateVersion) : List String :=
  [some version.html, version.text, version.from_, version.subject].reduceOption ++
    version.replyTo.getD []

theorem TemplateVersion.mem_fields {version : TemplateVersion} {field : String} :
    field ∈ version.fields ↔ field = version.html ∨ version.text = some field ∨
      version.from_ = some field ∨ version.subject = some field ∨
      field ∈ version.replyTo.getD [] := by
  simp only [fields, List.mem_append, List.reduceOption_mem_iff, List.mem_cons, Option.some.injEq,
    List.not_mem_nil, or_false, eq_comm, or_assoc]

/-- The placeholders of a checked version are declared. -/
theorem declared_of_validate {version : TemplateVersion} (h : version.validate = .ok ())
    {field : String} (hfield : field ∈ version.fields) {key : String}
    (hkey : .inr key ∈ splitPlaceholders 0 field.toList) :
    key ∈ version.variables_.map (·.key) := by
  unfold TemplateVersion.validate at h
  obtain ⟨_, -, h⟩ := bind_eq_ok.mp h
  obtain ⟨_, -, h⟩ := bind_eq_ok.mp h
  obtain ⟨_, -, h⟩ := bind_eq_ok.mp h
  obtain ⟨_, -, h⟩ := bind_eq_ok.mp h
  obtain ⟨_, -, h⟩ := bind_eq_ok.mp h
  have hreferenced : key ∈ version.referencedVariables :=
    List.mem_eraseDups.mpr (List.mem_flatMap.mpr
      ⟨field, hfield, List.mem_filterMap.mpr ⟨_, hkey, rfl⟩⟩)
  have hdeclared := throwIf_eq_ok.mp (forM_eq_ok.mp h key hreferenced)
  simpa using hdeclared

/-- One pass over the fields of a version. -/
structure SinglePass (version : TemplateVersion) (input : RenderTemplateInput)
    (value : String → Option String) (rendered : RenderedTemplate) : Prop where
  html : Substituted value escapeHtml version.html rendered.html
  text : ∀ text, version.text = some text → Substituted value id text rendered.text
  from_ : input.from_ = none → Option.Rel (Substituted value id) version.from_ rendered.from_
  subject : input.subject = none →
    Option.Rel (Substituted value id) version.subject rendered.subject
  replyTo : input.replyTo = none →
    Option.Rel (List.Forall₂ (Substituted value id)) version.replyTo rendered.replyTo
  escaped : ∀ key v, value key = some v → IsEscaped (escapeHtml v.toList)

/-- **Rendering substitutes.** -/
theorem rendering_substitutes {p : Platform} {version : TemplateVersion}
    (hv : version.validate = .ok ()) {input : RenderTemplateInput} {operation : String}
    {rendered : RenderedTemplate}
    (h : renderTemplateVersion p version input operation = .ok rendered) :
    SinglePass version input (version.valueOf (input.variables_.getD [])) rendered := by
  unfold renderTemplateVersion at h
  obtain ⟨_, -, h⟩ := bind_eq_ok.mp h
  obtain ⟨_, -, h⟩ := bind_eq_ok.mp h
  obtain ⟨values, hvalues, h⟩ := bind_eq_ok.mp h
  obtain ⟨_, -, h⟩ := bind_eq_ok.mp h
  obtain ⟨_, -, h⟩ := bind_eq_ok.mp h
  obtain ⟨_, -, h⟩ := bind_eq_ok.mp h
  obtain ⟨_, -, h⟩ := bind_eq_ok.mp h
  obtain ⟨_, -, h⟩ := bind_eq_ok.mp h
  rw [pure_eq_ok] at h
  subst h
  have hlookup := lookup_rendered hvalues
  have hdeclared : ∀ field ∈ version.fields, ∀ key,
      .inr key ∈ splitPlaceholders 0 field.toList →
        ∃ v, version.valueOf (input.variables_.getD []) key = some v :=
    fun field hfield key hkey => exists_valueOf hvalues (declared_of_validate hv hfield hkey)
  have hfield : ∀ field ∈ version.fields, ∀ escape, Substituted
      (version.valueOf (input.variables_.getD [])) (if escape then escapeHtml else id) field
      (renderValue field values escape) := fun field hmem escape =>
    renderValue_substituted hlookup (hdeclared field hmem) escape
  refine ⟨hfield _ (TemplateVersion.mem_fields.mpr (.inl rfl)) true, fun text htext => ?_,
    fun hnone => ?_, fun hnone => ?_, fun hnone => ?_, fun _ v _ => isEscaped_escapeHtml v.toList⟩
  · simp only [htext]
    exact hfield text (TemplateVersion.mem_fields.mpr (.inr (.inl htext))) false
  · show Option.Rel _ _ (input.from_.or (version.from_.map (renderValue · values false)))
    rw [hnone, Option.none_or]
    cases hfrom : version.from_ with
    | none => exact .none
    | some sender =>
      exact .some (hfield sender (TemplateVersion.mem_fields.mpr (.inr (.inr (.inl hfrom)))) false)
  · show Option.Rel _ _ (input.subject.or (version.subject.map (renderValue · values false)))
    rw [hnone, Option.none_or]
    cases hsubject : version.subject with
    | none => exact .none
    | some subject =>
      exact .some (hfield subject
        (TemplateVersion.mem_fields.mpr (.inr (.inr (.inr (.inl hsubject))))) false)
  · show Option.Rel _ _ (input.replyTo.or
      (version.replyTo.map (·.map (renderValue · values false))))
    rw [hnone, Option.none_or]
    cases hreply : version.replyTo with
    | none => exact .none
    | some addresses =>
      refine .some ?_
      rw [List.forall₂_map_right_iff, List.forall₂_same]
      intro address haddress
      have hmem : address ∈ version.replyTo.getD [] := by rwa [hreply]
      exact hfield address
        (TemplateVersion.mem_fields.mpr (.inr (.inr (.inr (.inr hmem))))) false

/-- A platform for templates: no dates, no attachments, no digests. -/
def templatePlatform : Platform where
  parseDate _ := none
  toLowerCase := String.toLower
  localeCompare a b := decide (a ≤ b)
  convertHtml html _ := html
  base64Length _ := none
  sha256 text := text

/-- A version with a placeholder in every field. -/
def greeting : TemplateVersion where
  id := "tmplv_1"
  name := "greeting"
  html := "<p>Hi \x7b\x7b\x7b name \x7d\x7d\x7d, \x7b\x7b\x7bcount\x7d\x7d\x7d \x7b\x7b\x7b new</p>"
  text := some "Hi \x7b\x7b\x7bname\x7d\x7d\x7d"
  from_ := some "\x7b\x7b\x7bname\x7d\x7d\x7d <a@x.io>"
  subject := some "\x7b\x7b\x7b\x7b\x7b\x7bcount\x7d\x7d\x7d\x7d"
  replyTo := some ["\x7b\x7b\x7bname\x7d\x7d\x7d <b@x.io>"]
  variables_ := [⟨"var_1", "name", .string, none, 0, 0⟩,
    ⟨"var_2", "count", .string, some (.text "3"), 0, 0⟩]
  createdAt := 0

/-- A value that looks like a placeholder, a replacement pattern and markup. -/
def greetingInput : RenderTemplateInput where
  variables_ := some [("name", .text "\x7b\x7b\x7bcount\x7d\x7d\x7d & <b>$&'")]

def greetingRendered : RenderedTemplate where
  from_ := some "\x7b\x7b\x7bcount\x7d\x7d\x7d & <b>$&' <a@x.io>"
  subject := some "\x7b\x7b\x7b3\x7d"
  html := "<p>Hi \x7b\x7b\x7bcount\x7d\x7d\x7d &amp; &lt;b&gt;$&amp;&#39;, 3 \x7b\x7b\x7b new</p>"
  text := "Hi \x7b\x7b\x7bcount\x7d\x7d\x7d & <b>$&'"
  replyTo := some ["\x7b\x7b\x7bcount\x7d\x7d\x7d & <b>$&' <b@x.io>"]

theorem rendering_substitutes_sample :
    SinglePass greeting greetingInput
      (greeting.valueOf [("name", .text "\x7b\x7b\x7bcount\x7d\x7d\x7d & <b>$&'")])
      greetingRendered := by
  have hv : greeting.validate = .ok () := by decide +kernel
  have h : renderTemplateVersion templatePlatform greeting greetingInput "send" =
      .ok greetingRendered := by decide +kernel
  exact rendering_substitutes hv h

/-! ## Fallbacks -/

/-- What `validateVariables` has checked. -/
structure CheckedVariables (variables_ : List TemplateVariable) : Prop where
  few : variables_.length ≤ 50
  nodup : (variables_.map (·.key)).Nodup
  key : ∀ v ∈ variables_, isVariableKey v.key = true
  fallback : ∀ v ∈ variables_, ∀ value, v.fallbackValue = some value →
    value.type = v.type ∧ validateValue v.key value = .ok ()

theorem validateVariablesFrom_eq_ok {seen : List String} {inputs : List TemplateVariableInput}
    (h : validateVariablesFrom seen inputs = .ok ()) :
    (inputs.map (·.key)).Nodup ∧ ∀ input ∈ inputs, input.key ∉ seen ∧
      isVariableKey input.key = true ∧ ∀ value, input.fallbackValue = some value →
        value.type = input.type ∧ validateValue input.key value = .ok () := by
  induction inputs generalizing seen with
  | nil => simp
  | cons input inputs ih =>
    obtain ⟨_, hkey, h⟩ := bind_eq_ok.mp h
    obtain ⟨_, hseen, h⟩ := bind_eq_ok.mp h
    obtain ⟨_, -, h⟩ := bind_eq_ok.mp h
    obtain ⟨_, htype, h⟩ := bind_eq_ok.mp h
    obtain ⟨_, hvalid, h⟩ := bind_eq_ok.mp h
    rw [throwIf_eq_ok] at hkey hseen htype
    obtain ⟨hnodup, hrest⟩ := ih h
    rw [List.map_cons, List.nodup_cons, List.forall_mem_cons]
    refine ⟨⟨fun hmem => ?_, hnodup⟩, ⟨by simpa using hseen, by simpa using hkey,
      fun value hvalue => ?_⟩, fun other hother => ?_⟩
    · obtain ⟨other, hother, heq⟩ := List.mem_map.mp hmem
      exact (hrest other hother).1 (heq ▸ List.mem_cons_self)
    · rw [hvalue] at htype hvalid
      exact ⟨by simpa using htype, hvalid⟩
    · obtain ⟨hnot, hkey, hfallback⟩ := hrest other hother
      exact ⟨fun hmem => hnot (List.mem_cons_of_mem _ hmem), hkey, hfallback⟩

theorem checked_of_variableRecords {variableId : ℕ → String}
    {inputs : List TemplateVariableInput} {now : ℕ} {previous variables_ : List TemplateVariable}
    (h : variableRecords variableId inputs now previous = .ok variables_) :
    CheckedVariables variables_ := by
  obtain ⟨_, hvalid, h⟩ := bind_eq_ok.mp h
  rw [pure_eq_ok] at h
  subst h
  obtain ⟨_, hfew, hvalid⟩ := bind_eq_ok.mp hvalid
  rw [throwIf_eq_ok] at hfew
  obtain ⟨hnodup, hinputs⟩ := validateVariablesFrom_eq_ok hvalid
  refine ⟨?_, ?_, fun v hv => ?_, fun v hv value hvalue => ?_⟩
  · rw [List.length_mapIdx]
    simpa using hfew
  · refine (congrArg List.Nodup ?_).mpr hnodup
    refine List.ext_getElem (by simp) fun k hk hk' => ?_
    simp
  · obtain ⟨k, hk, rfl⟩ := List.mem_mapIdx.mp hv
    exact (hinputs _ (List.getElem_mem hk)).2.1
  · obtain ⟨k, hk, rfl⟩ := List.mem_mapIdx.mp hv
    exact (hinputs _ (List.getElem_mem hk)).2.2 value hvalue

/-- A variable the object has no value for, though the variable has a fallback. -/
def fallsBack (provided : List (String × TemplateValue)) (v : TemplateVariable) : Bool :=
  (provided.lookup v.key).isNone && v.fallbackValue.isSome

/-- The fallbacks that are given. -/
def givenFallbacks (provided : List (String × TemplateValue)) (variables_ : List TemplateVariable) :
    List (String × TemplateValue) :=
  variables_.filterMap fun v =>
    if (provided.lookup v.key).isNone then v.fallbackValue.map (v.key, ·) else none

/-- The object as it would be with the fallbacks given. -/
def withFallbacks (variables_ : List TemplateVariable) (provided : List (String × TemplateValue)) :
    List (String × TemplateValue) :=
  provided ++ givenFallbacks provided variables_

/-- The variable is found on the prototype of the object, in place of its fallback. -/
def isShadowed (provided : List (String × TemplateValue)) (v : TemplateVariable) : Bool :=
  fallsBack provided v && inheritedNames.contains v.key

/-- The variable is rejected for itself: it has neither a value nor a fallback, or its value is too
long or no safe integer. -/
def isRejected (provided : List (String × TemplateValue)) (v : TemplateVariable) : Bool :=
  match provided.lookup v.key with
  | some value => !(validateValue v.key value).isOk
  | none => v.fallbackValue.isNone

/-- A plain object: its keys are distinct and declared, its values of the declared types. -/
structure WellTyped (variables_ : List TemplateVariable)
    (provided : List (String × TemplateValue)) : Prop where
  nodup : (provided.map Prod.fst).Nodup
  declared : ∀ entry ∈ provided, entry.1 ∈ variables_.map (·.key)
  typed : ∀ v ∈ variables_, ∀ value, provided.lookup v.key = some value → value.type = v.type

section Fallbacks

variable {variables_ : List TemplateVariable} {provided : List (String × TemplateValue)}

theorem mem_givenFallbacks {entry : String × TemplateValue}
    (h : entry ∈ givenFallbacks provided variables_) :
    ∃ v ∈ variables_, v.key = entry.1 ∧ provided.lookup v.key = none := by
  obtain ⟨v, hv, hentry⟩ := List.mem_filterMap.mp h
  split_ifs at hentry with hnone
  obtain ⟨value, -, rfl⟩ := Option.map_eq_some_iff.mp hentry
  exact ⟨v, hv, rfl, Option.isNone_iff_eq_none.mp hnone⟩

theorem lookup_givenFallbacks (hn : (variables_.map (·.key)).Nodup) {v : TemplateVariable}
    (hv : v ∈ variables_) (hnone : provided.lookup v.key = none) :
    (givenFallbacks provided variables_).lookup v.key = v.fallbackValue := by
  induction variables_ with
  | nil => cases hv
  | cons u us ih =>
    obtain ⟨hu, hus⟩ := List.nodup_cons.mp hn
    have hcons : givenFallbacks provided (u :: us) =
        (if (provided.lookup u.key).isNone then u.fallbackValue.map (u.key, ·) else none).toList ++
          givenFallbacks provided us := by
      rw [givenFallbacks, List.filterMap_cons]
      generalize (if (provided.lookup u.key).isNone then u.fallbackValue.map (u.key, ·)
        else none) = given
      cases given <;> rfl
    rw [hcons]
    rcases List.mem_cons.mp hv with rfl | hv
    · rw [hnone, Option.isNone_none, if_pos rfl]
      cases v.fallbackValue with
      | some value => simp
      | none =>
        -- no later variable has the key
        rw [Option.map_none, Option.toList_none, List.nil_append, List.lookup_eq_none_iff]
        intro entry hentry
        obtain ⟨w, hw, hkey, -⟩ := mem_givenFallbacks hentry
        rw [← hkey]
        have hne : v.key ≠ w.key := fun heq => hu (List.mem_map.mpr ⟨w, hw, heq.symm⟩)
        simpa using hne
    · have hne : v.key ≠ u.key := fun heq => hu (List.mem_map.mpr ⟨v, hv, heq⟩)
      rw [List.lookup_append, ih hus hv]
      split_ifs
      · cases u.fallbackValue with
        | none => rfl
        | some value => simp [beq_false_of_ne hne, List.lookup_cons]
      · rfl

theorem lookup_withFallbacks (hc : CheckedVariables variables_) {v : TemplateVariable}
    (hv : v ∈ variables_) : (withFallbacks variables_ provided).lookup v.key =
      (provided.lookup v.key).or v.fallbackValue := by
  rw [withFallbacks, List.lookup_append]
  cases hown : provided.lookup v.key with
  | some value => rfl
  | none => exact lookup_givenFallbacks hc.nodup hv hown

theorem withFallbacks_declared (hw : WellTyped variables_ provided) :
    ∀ entry ∈ withFallbacks variables_ provided, entry.1 ∈ variables_.map (·.key) := by
  intro entry hentry
  rcases List.mem_append.mp hentry with hentry | hentry
  · exact hw.declared entry hentry
  · obtain ⟨v, hv, hkey, -⟩ := mem_givenFallbacks hentry
    exact hkey ▸ List.mem_map_of_mem hv

theorem withFallbacks_nodup (hc : CheckedVariables variables_)
    (hw : WellTyped variables_ provided) :
    ((withFallbacks variables_ provided).map Prod.fst).Nodup := by
  rw [withFallbacks, List.map_append, List.nodup_append]
  refine ⟨hw.nodup, ?_, fun key hkey key' hkey' heq => ?_⟩
  · have hsub : ∀ us : List TemplateVariable,
        ((givenFallbacks provided us).map Prod.fst).Sublist (us.map (·.key)) := by
      intro us
      induction us with
      | nil => exact List.Sublist.slnil
      | cons u us ih =>
        rw [givenFallbacks, List.filterMap_cons]
        split
        · exact ih.cons _
        · rename_i entry hentry
          split_ifs at hentry
          obtain ⟨value, -, rfl⟩ := Option.map_eq_some_iff.mp hentry
          exact ih.cons_cons _
    exact (hsub variables_).nodup hc.nodup
  · -- a given fallback is that of a variable without a value
    obtain ⟨entry, hentry, rfl⟩ := List.mem_map.mp hkey
    obtain ⟨entry', hentry', rfl⟩ := List.mem_map.mp hkey'
    obtain ⟨v, -, hvkey, hnone⟩ := mem_givenFallbacks hentry'
    rw [List.lookup_eq_none_iff] at hnone
    have hne := hnone entry hentry
    rw [hvkey, ← heq] at hne
    simp at hne

/-- At most one value for each variable. -/
theorem length_le_of_declared (hc : CheckedVariables variables_)
    {entries : List (String × TemplateValue)} (hn : (entries.map Prod.fst).Nodup)
    (hd : ∀ entry ∈ entries, entry.1 ∈ variables_.map (·.key)) : entries.length ≤ 50 := by
  have hsub : entries.map Prod.fst ⊆ variables_.map (·.key) := by
    intro key hkey
    obtain ⟨entry, hentry, rfl⟩ := List.mem_map.mp hkey
    exact hd entry hentry
  have hle := (List.subperm_of_subset hn hsub).length_le
  rw [List.length_map, List.length_map] at hle
  exact hle.trans hc.few

/-- What is thrown for a variable that is found on the prototype. -/
def shadowedError (v : TemplateVariable) : Failure :=
  .validation ("Template variable " ++ v.key ++ " must be a " ++ v.type.name ++ ".")

theorem renderedValue_shadowed {v : TemplateVariable} (h : isShadowed provided v = true) :
    renderedValue provided v = .error (shadowedError v) := by
  rw [isShadowed, fallsBack, Bool.and_eq_true, Bool.and_eq_true] at h
  unfold renderedValue
  dsimp only
  rw [h.1.1, h.2]
  rfl

/-- A variable that is not shadowed is rendered alike with and without the fallbacks. -/
theorem renderedValue_withFallbacks (hc : CheckedVariables variables_) {v : TemplateVariable}
    (hv : v ∈ variables_) (h : isShadowed provided v = false) :
    renderedValue (withFallbacks variables_ provided) v = renderedValue provided v := by
  unfold renderedValue
  rw [lookup_withFallbacks hc hv]
  rw [isShadowed, fallsBack] at h
  cases hown : provided.lookup v.key with
  | some value => rfl
  | none =>
    rw [hown] at h
    cases hfallback : v.fallbackValue with
    | none => rfl
    | some value =>
      rw [hfallback] at h
      have hplain : inheritedNames.contains v.key = false := by simpa using h
      rw [hplain]
      rfl

/-- With the fallbacks given, a shadowed variable has a value. -/
theorem renderedValue_withFallbacks_shadowed (hc : CheckedVariables variables_)
    {v : TemplateVariable} (hv : v ∈ variables_) (h : isShadowed provided v = true) :
    ∃ entry, renderedValue (withFallbacks variables_ provided) v = .ok entry := by
  rw [isShadowed, fallsBack, Bool.and_eq_true, Bool.and_eq_true] at h
  obtain ⟨value, hvalue⟩ := Option.isSome_iff_exists.mp h.1.2
  obtain ⟨htype, hvalid⟩ := hc.fallback v hv value hvalue
  have hlookup : (withFallbacks variables_ provided).lookup v.key = some value := by
    rw [lookup_withFallbacks hc hv, Option.isNone_iff_eq_none.mp h.1.1, Option.none_or, hvalue]
  exact ⟨_, renderedValue_eq_ok.mpr
    ⟨by rw [hlookup]; rfl, value, by rw [hlookup]; rfl, htype, hvalid, rfl⟩⟩

/-- A variable that is rejected for itself is not rendered. -/
theorem renderedValue_rejected {v : TemplateVariable} (h : isRejected provided v = true) :
    isShadowed provided v = false ∧ ∃ e, renderedValue provided v = .error e := by
  unfold isRejected at h
  cases hown : provided.lookup v.key with
  | some value =>
    rw [hown] at h
    refine ⟨by rw [isShadowed, fallsBack, hown]; rfl, ?_⟩
    cases hr : renderedValue provided v with
    | error e => exact ⟨e, rfl⟩
    | ok entry =>
      obtain ⟨-, value', hvalue, -, hvalid, -⟩ := renderedValue_eq_ok.mp hr
      rw [hown, Option.some_or, Option.some.injEq] at hvalue
      dsimp only at h
      rw [hvalue, hvalid] at h
      cases h
  | none =>
    rw [hown] at h
    dsimp only at h
    refine ⟨by rw [isShadowed, fallsBack, Option.isNone_iff_eq_none.mp h]; simp, ?_⟩
    cases hr : renderedValue provided v with
    | error e => exact ⟨e, rfl⟩
    | ok entry =>
      obtain ⟨-, value', hvalue, -⟩ := renderedValue_eq_ok.mp hr
      rw [hown, Option.isNone_iff_eq_none.mp h] at hvalue
      cases hvalue

/-- A variable that is neither shadowed nor rejected is rendered. -/
theorem renderedValue_rendered (hc : CheckedVariables variables_)
    (hw : WellTyped variables_ provided) {v : TemplateVariable} (hv : v ∈ variables_)
    (hs : isShadowed provided v = false) (hr : isRejected provided v = false) :
    ∃ entry, renderedValue provided v = .ok entry := by
  unfold isRejected at hr
  rw [isShadowed, fallsBack] at hs
  cases hown : provided.lookup v.key with
  | some value =>
    rw [hown] at hr
    have hvalid : validateValue v.key value = .ok () := by
      cases hvalue : validateValue v.key value with
      | ok u => rfl
      | error e =>
        dsimp only at hr
        rw [hvalue] at hr
        cases hr
    exact ⟨_, renderedValue_eq_ok.mpr ⟨by rw [hown]; rfl, value, by rw [hown]; rfl,
      hw.typed v hv value hown, hvalid, rfl⟩⟩
  | none =>
    rw [hown] at hr hs
    dsimp only at hr
    obtain ⟨value, hvalue⟩ := Option.isSome_iff_exists.mp (Option.isNone_eq_false_iff.mp hr)
    obtain ⟨htype, hvalid⟩ := hc.fallback v hv value hvalue
    have hplain : inheritedNames.contains v.key = false := by simpa [hvalue] using hs
    exact ⟨_, renderedValue_eq_ok.mpr ⟨by rw [hown, hplain]; rfl, value, by rw [hown, hvalue]; rfl,
      htype, hvalid, rfl⟩⟩

/-! ### What the variables throw -/

/-- The error of a variable names it. -/
def Names (key : String) (e : Failure) : Prop :=
  ∃ rest : String, e = .validation ("Template variable " ++ key ++ (" " ++ rest))

theorem names_shadowedError (v : TemplateVariable) : Names v.key (shadowedError v) := by
  refine ⟨"must be a " ++ v.type.name ++ ".", ?_⟩
  have hspace : " must be a " = " " ++ "must be a " := rfl
  rw [shadowedError, hspace]
  simp only [String.append_assoc]

theorem names_renderedValue (provided : List (String × TemplateValue)) (v : TemplateVariable) :
    ThrowsOnly (Names v.key) (renderedValue provided v) := by
  have htype := names_shadowedError v
  unfold renderedValue
  dsimp only
  refine .bind (.throwIf htype) fun _ => ?_
  split
  · exact .error ⟨"requires a value.", rfl⟩
  · rename_i value _
    refine .bind (.throwIf htype) fun _ => .bind ?_ fun _ => .ok _
    cases value with
    | text value => exact .throwIf ⟨"must not exceed 2000 characters.", rfl⟩
    | number value => exact .throwIf ⟨"must be a finite safe integer.", rfl⟩

/-- An error that names one variable does not name another. -/
theorem names_inj {key key' : String} (hk : isVariableKey key = true)
    (hk' : isVariableKey key' = true) {e : Failure} (h : Names key e) (h' : Names key' e) :
    key = key' := by
  obtain ⟨rest, rfl⟩ := h
  obtain ⟨rest', heq⟩ := h'
  have hspace : ∀ {k : String}, isVariableKey k = true → ' ' ∉ k.toList := by
    intro k hk hmem
    have hchar := List.all_eq_true.mp (isVariableKey_iff.mp hk).2 ' ' hmem
    exact absurd hchar (by decide)
  have hlist := congrArg String.toList (Failure.validation.inj heq)
  simp only [String.toList_append, List.append_assoc] at hlist
  exact String.toList_injective
    (append_sep_inj_left (hspace hk) (hspace hk') (List.append_cancel_left hlist)).1

/-- The variables are rendered alike, up to the first that is rejected, when none is shadowed. -/
theorem mapM_renderedValue_eq (hc : CheckedVariables variables_) {vs : List TemplateVariable}
    (hvs : ∀ v ∈ vs, v ∈ variables_)
    (h : ∀ v ∈ vs.takeWhile (fun v => !isRejected provided v), isShadowed provided v = false) :
    vs.mapM (renderedValue (withFallbacks variables_ provided)) =
      vs.mapM (renderedValue provided) := by
  induction vs with
  | nil => rfl
  | cons v vs ih =>
    obtain ⟨hv, hvs⟩ := List.forall_mem_cons.mp hvs
    rw [List.mapM_cons, List.mapM_cons]
    cases hr : isRejected provided v with
    | true =>
      obtain ⟨hs, e, he⟩ := renderedValue_rejected hr
      rw [renderedValue_withFallbacks hc hv hs, he, error_bind, error_bind]
    | false =>
      rw [List.takeWhile_cons_of_pos (by rw [hr]; rfl), List.forall_mem_cons] at h
      rw [renderedValue_withFallbacks hc hv h.1, ih hvs h.2]

/-- A shadowed variable before all rejected ones fails, and with the fallbacks given nothing fails
as it does. -/
theorem exists_shadowedError (hc : CheckedVariables variables_) (hw : WellTyped variables_ provided)
    {vs : List TemplateVariable} (hvs : ∀ v ∈ vs, v ∈ variables_) (hn : (vs.map (·.key)).Nodup)
    (h : ∃ v ∈ vs.takeWhile (fun v => !isRejected provided v), isShadowed provided v = true) :
    ∃ v ∈ variables_, vs.mapM (renderedValue provided) = .error (shadowedError v) ∧
      ThrowsOnly (· ≠ shadowedError v)
        (vs.mapM (renderedValue (withFallbacks variables_ provided))) := by
  induction vs with
  | nil => simp at h
  | cons v vs ih =>
    obtain ⟨hv, hvs⟩ := List.forall_mem_cons.mp hvs
    obtain ⟨hnot, hn⟩ := List.nodup_cons.mp hn
    have hr : isRejected provided v = false := by
      cases hr : isRejected provided v with
      | false => rfl
      | true =>
        rw [List.takeWhile_cons_of_neg (by rw [hr]; exact Bool.false_ne_true)] at h
        simp at h
    rw [List.takeWhile_cons_of_pos (by rw [hr]; rfl)] at h
    rw [List.mapM_cons, List.mapM_cons]
    cases hs : isShadowed provided v with
    | true =>
      obtain ⟨entry, hentry⟩ := renderedValue_withFallbacks_shadowed hc hv hs
      refine ⟨v, hv, by rw [renderedValue_shadowed hs, error_bind], ?_⟩
      rw [hentry, ok_bind]
      refine .bind (ThrowsOnly.mapM_mem fun u hu => ?_) fun _ => .ok _
      rintro e he rfl
      have hnamesU := names_renderedValue _ u _ he
      have hkey := names_inj (hc.key u (hvs u hu)) (hc.key v hv) hnamesU (names_shadowedError v)
      exact hnot (List.mem_map.mpr ⟨u, hu, hkey⟩)
    | false =>
      obtain ⟨w, hw', hshadowed⟩ := h
      have hrest : ∃ v ∈ vs.takeWhile (fun v => !isRejected provided v),
          isShadowed provided v = true := by
        rcases List.mem_cons.mp hw' with rfl | hw'
        · rw [hs] at hshadowed
          cases hshadowed
        · exact ⟨w, hw', hshadowed⟩
      obtain ⟨u, hu, herror, hthrows⟩ := ih hvs hn hrest
      obtain ⟨entry, hentry⟩ := renderedValue_rendered hc hw hv hs hr
      refine ⟨u, hu, by rw [hentry, ok_bind, herror, error_bind], ?_⟩
      rw [renderedValue_withFallbacks hc hv hs, hentry, ok_bind]
      exact .bind hthrows fun _ => .ok _

end Fallbacks

/-! ### Whole renderings -/

/-- `renderTemplateVersion`, from the values of the variables on. -/
def renderFields (p : Platform) (version : TemplateVersion) (input : RenderTemplateInput)
    (values : List (String × String)) : Except Failure RenderedTemplate := do
  let sender := input.from_.or (version.from_.map (renderValue · values false))
  let subject := input.subject.or (version.subject.map (renderValue · values false))
  let replyTo := input.replyTo.or (version.replyTo.map (·.map (renderValue · values false)))
  let html := renderValue version.html values true
  throwIf (decide (maxRenderedTemplateBytes < html.utf8ByteSize))
    (.validation "Rendered template content must not exceed 1048576 bytes.")
  let text := match version.text with
    | none => p.convertHtml html maxRenderedTemplateBytes
    | some text => renderValue text values false
  throwIf (decide (maxRenderedTemplateBytes < html.utf8ByteSize + text.utf8ByteSize))
    (.validation "Rendered template content must not exceed 1048576 bytes.")
  (sender.filter (· != "")).forM (ensureSafeRenderedHeader "from")
  (subject.filter (· != "")).forM (ensureSafeRenderedHeader "subject")
  (replyTo.getD []).forM (ensureSafeRenderedHeader "reply_to")
  return { from_ := sender, subject := subject, html := html, text := text, replyTo := replyTo }

/-- With declared variables, at most 50 of them, only their values count. -/
theorem renderTemplateVersion_eq {p : Platform} {version : TemplateVersion}
    {input : RenderTemplateInput} {operation : String}
    (hfew : (input.variables_.getD []).length ≤ 50)
    (hdeclared : ∀ entry ∈ input.variables_.getD [], entry.1 ∈ version.variables_.map (·.key)) :
    renderTemplateVersion p version input operation =
      version.variables_.mapM (renderedValue (input.variables_.getD [])) >>=
        renderFields p version input := by
  unfold renderTemplateVersion
  dsimp only
  have hcount : throwIf (decide (50 < (input.variables_.getD []).length)) (Failure.validation
      ("A template " ++ operation ++ " may provide at most 50 variables.")) = .ok () :=
    throwIf_eq_ok.mpr (by simpa using hfew)
  rw [hcount, ok_bind]
  have hall : ((input.variables_.getD []).forM fun entry =>
      throwIf (!(version.variables_.map (·.key)).contains entry.1) (Failure.validation
        ("Template variable " ++ entry.1 ++ " is not declared."))) = .ok () := by
    refine forM_eq_ok.mpr fun entry hentry => throwIf_eq_ok.mpr ?_
    simpa using hdeclared entry hentry
  rw [hall, ok_bind]
  rfl

/-- What fails after the variables is not about a variable. -/
theorem rendered_ne_shadowedError {v : TemplateVariable} (rest : String) :
    Failure.validation ("Rendered template " ++ rest) ≠ shadowedError v := by
  intro heq
  have hhead := congrArg (fun text => text.toList.head?) (Failure.validation.inj heq)
  simp at hhead

theorem throwsOnly_renderFields {p : Platform} {version : TemplateVersion}
    {input : RenderTemplateInput} {values : List (String × String)} {v : TemplateVariable} :
    ThrowsOnly (· ≠ shadowedError v) (renderFields p version input values) := by
  have hheader : ∀ label value : String,
      ThrowsOnly (· ≠ shadowedError v) (ensureSafeRenderedHeader label value) := by
    intro label value
    unfold ensureSafeRenderedHeader
    refine .bind (.throwIf ?_) fun _ => .throwIf ?_
    all_goals
      rw [String.append_assoc]
      exact rendered_ne_shadowedError _
  have hfield : ∀ (label : String) (field : Option String),
      ThrowsOnly (· ≠ shadowedError v) (field.forM (ensureSafeRenderedHeader label)) := by
    intro label field
    cases field with
    | none => exact .ok _
    | some value => exact hheader label value
  have hlarge := rendered_ne_shadowedError (v := v) "content must not exceed 1048576 bytes."
  unfold renderFields
  dsimp only
  refine .bind (.throwIf hlarge) fun _ => .bind (.throwIf hlarge) fun _ =>
    .bind (hfield _ _) fun _ => .bind (hfield _ _) fun _ =>
      .bind (.forM fun address => hheader _ address) fun _ => .ok _

/-- The fallbacks count for every variable that is not given, and one without a fallback fails. -/
structure FallbacksUsed (p : Platform) (version : TemplateVersion) (input : RenderTemplateInput)
    (operation : String) : Prop where
  same : renderTemplateVersion p version input operation =
    renderTemplateVersion p version
      { input with
        variables_ := some (withFallbacks version.variables_ (input.variables_.getD [])) }
      operation
  rejects : ∀ v ∈ version.variables_, (input.variables_.getD []).lookup v.key = none →
    v.fallbackValue = none → ∃ e, renderTemplateVersion p version input operation = .error e

/-- **The fallbacks count, but for the names that every object inherits.** -/
theorem fallbacks_used_iff {p : Platform} {version : TemplateVersion} {variableId : ℕ → String}
    {inputs : List TemplateVariableInput} {now : ℕ} {previous : List TemplateVariable}
    (hvars : variableRecords variableId inputs now previous = .ok version.variables_)
    {input : RenderTemplateInput} {operation : String}
    (hw : WellTyped version.variables_ (input.variables_.getD [])) :
    FallbacksUsed p version input operation ↔
      ∀ v ∈ version.variables_.takeWhile (fun v => !isRejected (input.variables_.getD []) v),
        isShadowed (input.variables_.getD []) v = false := by
  have hc := checked_of_variableRecords hvars
  have hown : renderTemplateVersion p version input operation =
      version.variables_.mapM (renderedValue (input.variables_.getD [])) >>=
        renderFields p version input :=
    renderTemplateVersion_eq (length_le_of_declared hc hw.nodup hw.declared) hw.declared
  have hgiven : renderTemplateVersion p version { input with
      variables_ := some (withFallbacks version.variables_ (input.variables_.getD [])) } operation =
      version.variables_.mapM (renderedValue
        (withFallbacks version.variables_ (input.variables_.getD []))) >>=
          renderFields p version input :=
    renderTemplateVersion_eq
      (length_le_of_declared hc (withFallbacks_nodup hc hw) (withFallbacks_declared hw))
      (withFallbacks_declared hw)
  constructor
  · intro h
    by_contra hshadowed
    push Not at hshadowed
    obtain ⟨v, hv, hs⟩ := hshadowed
    obtain ⟨u, -, herror, hthrows⟩ := exists_shadowedError hc hw (fun _ hv => hv) hc.nodup
      ⟨v, hv, by simpa using hs⟩
    have hsame := h.same
    rw [hown, herror, error_bind, hgiven] at hsame
    exact ThrowsOnly.bind hthrows (fun _ => throwsOnly_renderFields) _ hsame.symm rfl
  · intro h
    refine ⟨by rw [hown, hgiven, mapM_renderedValue_eq hc (fun _ hv => hv) h],
      fun v hv hnone hfallback => ?_⟩
    rw [hown]
    cases hvalues : version.variables_.mapM (renderedValue (input.variables_.getD [])) with
    | error e => exact ⟨e, rfl⟩
    | ok values =>
      obtain ⟨entry, hentry⟩ := (mapM_eq_ok_filterMap.mp hvalues).1 v hv
      obtain ⟨-, value, hvalue, -⟩ := renderedValue_eq_ok.mp hentry
      rw [hnone, hfallback] at hvalue
      cases hvalue

/-- A variable under a name that every object inherits, with a fallback. -/
def inheritedInput : TemplateVariableInput := ⟨"constructor", .string, some (.text "x")⟩

def inheritedVersion : TemplateVersion where
  id := "tmplv_1"
  name := "inherited"
  html := "<p>\x7b\x7b\x7bconstructor\x7d\x7d\x7d</p>"
  variables_ := [⟨"var_1", "constructor", .string, some (.text "x"), 0, 0⟩]
  createdAt := 0

theorem fallback_shadowed :
    variableRecords (fun _ => "var_1") [inheritedInput] 0 [] = .ok inheritedVersion.variables_ ∧
    WellTyped inheritedVersion.variables_ [] ∧
    renderTemplateVersion templatePlatform inheritedVersion ⟨none, none, none, none⟩ "send" =
      .error (.validation "Template variable constructor must be a string.") ∧
    ¬ FallbacksUsed templatePlatform inheritedVersion ⟨none, none, none, none⟩ "send" := by
  refine ⟨by decide +kernel, ⟨List.nodup_nil, by simp, by simp⟩, by decide +kernel, fun h => ?_⟩
  have hne : ¬ renderTemplateVersion templatePlatform inheritedVersion ⟨none, none, none, none⟩
      "send" = renderTemplateVersion templatePlatform inheritedVersion
        ⟨none, none, none, some [("constructor", .text "x")]⟩ "send" := by decide +kernel
  exact hne h.same

theorem fallbacks_used_iff_sample :
    FallbacksUsed templatePlatform greeting greetingInput "send" := by
  have hvars : variableRecords (fun i => if i = 0 then "var_1" else "var_2")
      [⟨"name", .string, none⟩, ⟨"count", .string, some (.text "3")⟩] 0 [] =
        .ok greeting.variables_ := by decide +kernel
  have hw : WellTyped greeting.variables_ (greetingInput.variables_.getD []) := by
    refine ⟨by decide, by decide, fun v hv value hvalue => ?_⟩
    rcases List.mem_cons.mp hv with rfl | hv
    · obtain rfl := Option.some.inj hvalue
      rfl
    · obtain rfl := List.mem_singleton.mp hv
      cases hvalue
  exact (fallbacks_used_iff hvars hw).mpr (by decide +kernel)

end HayaSend
