import AcojWorker.Python.Text
import AcojWorker.Python.Utf8
import AcojWorker.Python.Value
import Mathlib.Data.List.DropRight

/-!
# File URLs

The name of a stored object becomes a URL below the public path, each segment percent-quoted.
The way back cuts the public path off and does not unquote, so that only names without quoted
characters come back. A public path that looks like the start of an external URL, or that starts
with blanks, is not recognized either.
-/

namespace AcojWorker.StorageUrl

open Python

/-- What is used of `urllib.parse` beside `quote`; `urlparse` gives the scheme, or raises for a
malformed network location. -/
structure UrlLibrary where
  urlparse : List Char → Except Exc (List Char)
  urljoin : List Char → List Char → List Char

/-- The settings `storage`. -/
structure Settings where
  baseUrl : List Char
  publicPath : List Char

/-! ### Quoting -/

def isLetterOrDigit (c : Char) : Bool :=
  ('a' ≤ c && c ≤ 'z') || ('A' ≤ c && c ≤ 'Z') || ('0' ≤ c && c ≤ '9')

/-- The characters that `quote` keeps; `/` is its default for `safe`. -/
def isSafe (c : Char) : Bool := isLetterOrDigit c || c ∈ ['_', '.', '-', '~', '/']

def hexDigit (n : ℕ) : Char := Char.ofNat (if n < 10 then 48 + n else 55 + n)

def quoteByte (b : UInt8) : List Char :=
  if b.toNat < 128 ∧ isSafe (Char.ofNat b.toNat) then [Char.ofNat b.toNat]
  else ['%', hexDigit (b.toNat / 16), hexDigit (b.toNat % 16)]

def quote (part : List Char) : List Char := (encodeUtf8 part).flatMap quoteByte

/-! ### The functions -/

/-- `text.strip("/")`. -/
def stripSlashes (text : List Char) : List Char :=
  (text.dropWhile (· == '/')).rdropWhile (· == '/')

def quoteObjectName (objectName : List Char) : List Char :=
  ['/'].intercalate (((stripSlashes objectName).splitOn '/').filter (· ≠ []) |>.map quote)

section Functions

variable (lib : UrlLibrary) (settings : Settings)

def buildFileAccessUrl (objectName : List Char) (baseUrl publicPath : Option (List Char)) :
    List Char :=
  let quotedName := quoteObjectName objectName
  let resolvedBaseUrl := baseUrl.getD settings.baseUrl
  let resolvedPublicPath := publicPath.getD settings.publicPath
  if resolvedBaseUrl ≠ [] then
    lib.urljoin (resolvedBaseUrl.rdropWhile (· == '/') ++ ['/']) quotedName
  else resolvedPublicPath.rdropWhile (· == '/') ++ '/' :: quotedName

def isExternalUrl (value : List Char) : Except Exc Bool :=
  match lib.urlparse value with
  | .error e => .error e
  | .ok scheme =>
      .ok (scheme ∈ ["http".toList, "https".toList, "data".toList, "blob".toList])

/-- An empty public path of the call is taken for none. -/
def normalizeObjectName (value : Option (List Char)) (publicPath : Option (List Char)) :
    Except Exc (Option (List Char)) :=
  match value with
  | none => .ok none
  | some value =>
      let rawValue := strip value
      if rawValue = [] then .ok none
      else
        match isExternalUrl lib rawValue with
        | .error e => .error e
        | .ok true => .ok (some rawValue)
        | .ok false =>
            let resolvedPublicPath :=
              if publicPath.getD [] ≠ [] then publicPath.getD [] else settings.publicPath
            let publicPrefix := resolvedPublicPath.rdropWhile (· == '/') ++ ['/']
            if publicPrefix <+: rawValue then
              .ok (some ((rawValue.drop publicPrefix.length).dropWhile (· == '/')))
            else
              .ok (some ((rawValue.map fun c => if c = '\\' then '/' else c).dropWhile (· == '/')))

def resolveFileUrl (value baseUrl publicPath : Option (List Char)) :
    Except Exc (Option (List Char)) :=
  match normalizeObjectName lib settings value publicPath with
  | .error e => .error e
  | .ok none => .ok none
  | .ok (some objectName) =>
      if objectName = [] then .ok none
      else
        match isExternalUrl lib objectName with
        | .error e => .error e
        | .ok true => .ok (some objectName)
        | .ok false => .ok (some (buildFileAccessUrl lib settings objectName baseUrl publicPath))

end Functions

/-! ### What quoting does to a text -/

theorem quote_append (first second : List Char) :
    quote (first ++ second) = quote first ++ quote second := by
  simp only [quote, encodeUtf8, List.flatMap_append]

theorem quote_cons (c : Char) (cs : List Char) : quote (c :: cs) = quote [c] ++ quote cs :=
  quote_append [c] cs

theorem isSafe_range {c : Char} (safe : isSafe c = true) : 45 ≤ c.toNat ∧ c.toNat ≤ 126 := by
  have le_toNat : ∀ a b : Char, a ≤ b → a.toNat ≤ b.toNat := fun _ _ h => h
  simp only [isSafe, isLetterOrDigit, Bool.or_eq_true, Bool.and_eq_true, decide_eq_true_eq] at safe
  obtain ((⟨low, high⟩ | ⟨low, high⟩) | ⟨low, high⟩) | mem := safe
  · exact ⟨Nat.le_trans (by decide) (le_toNat _ _ low), Nat.le_trans (le_toNat _ _ high) (by decide)⟩
  · exact ⟨Nat.le_trans (by decide) (le_toNat _ _ low), Nat.le_trans (le_toNat _ _ high) (by decide)⟩
  · exact ⟨Nat.le_trans (by decide) (le_toNat _ _ low), Nat.le_trans (le_toNat _ _ high) (by decide)⟩
  · simp only [List.mem_cons, List.not_mem_nil, or_false] at mem
    obtain rfl | rfl | rfl | rfl | rfl := mem <;> decide

theorem isSpace_of_isSafe {c : Char} (safe : isSafe c = true) : isSpace c = false := by
  obtain ⟨low, high⟩ := isSafe_range safe
  simp only [isSpace, Bool.or_eq_false_iff, Bool.and_eq_false_iff, decide_eq_false_iff_not,
    beq_eq_false_iff_ne]
  omega

theorem isSafe_hexDigit {n : ℕ} (digit : n < 16) : isSafe (hexDigit n) = true := by
  revert digit n
  decide

/-- A character is kept, or becomes a percent sign and two digits or more. -/
theorem quote_char (c : Char) : isSafe c = true ∧ quote [c] = [c] ∨
    isSafe c = false ∧ ∃ code, quote [c] = '%' :: code ∧ 2 ≤ code.length := by
  have bytes : quote [c] = (String.utf8EncodeChar c).flatMap quoteByte := by
    simp only [quote, encodeUtf8, List.flatMap_cons, List.flatMap_nil, List.append_nil]
  have high : ∀ (b : UInt8) bs, 128 ≤ b.toNat →
      ∃ code, (b :: bs).flatMap quoteByte = '%' :: code ∧ 2 ≤ code.length := by
    intro b bs h
    rw [List.flatMap_cons, quoteByte, if_neg (by omega)]
    exact ⟨_, rfl, by simp⟩
  have value : c.val.toNat = c.toNat := rfl
  rw [bytes]
  by_cases ascii : c.toNat < 128
  · have byte : String.utf8EncodeChar c = [UInt8.ofNat c.toNat] := by
      rw [String.utf8EncodeChar]
      simp only [value]
      rw [if_pos (by omega)]
    have same : (UInt8.ofNat c.toNat).toNat = c.toNat := Utf8.toNat_ofNat (by omega)
    rw [byte, List.flatMap_cons, List.flatMap_nil, List.append_nil, quoteByte, same,
      Char.ofNat_toNat]
    cases safe : isSafe c with
    | true => exact .inl ⟨rfl, if_pos ⟨ascii, rfl⟩⟩
    | false => exact .inr ⟨rfl, _, if_neg (by simp), by simp⟩
  · have quoted : isSafe c = false := by
      by_contra safe
      have := isSafe_range (Bool.not_eq_false _ ▸ safe)
      omega
    refine .inr ⟨quoted, ?_⟩
    have bound : c.toNat < 0x110000 := by
      have valid : c.toNat < 0xD800 ∨ 0xDFFF < c.toNat ∧ c.toNat < 0x110000 := c.valid
      omega
    rw [String.utf8EncodeChar]
    simp only [value]
    rw [if_neg (by omega)]
    split
    · exact high _ _ (by rw [Utf8.toNat_ofNat (by omega)]; omega)
    · split
      · exact high _ _ (by rw [Utf8.toNat_ofNat (by omega)]; omega)
      · exact high _ _ (by rw [Utf8.toNat_ofNat (by omega)]; omega)

/-- Nothing else is found in a quoted text. -/
theorem mem_quote {text : List Char} {c : Char} (mem : c ∈ quote text) :
    isSafe c = true ∨ c = '%' := by
  obtain ⟨b, -, mem⟩ := List.mem_flatMap.mp mem
  rw [quoteByte] at mem
  split at mem
  · next safe => exact .inl (List.mem_singleton.mp mem ▸ safe.2)
  · have size := b.toNat_lt
    simp only [List.mem_cons, List.not_mem_nil, or_false] at mem
    obtain rfl | rfl | rfl := mem
    · exact .inr rfl
    · exact .inl (isSafe_hexDigit (by omega))
    · exact .inl (isSafe_hexDigit (by omega))

theorem length_quote (text : List Char) : text.length ≤ (quote text).length := by
  induction text with
  | nil => exact Nat.le_refl _
  | cons c cs ih =>
      rw [quote_cons, List.length_append, List.length_cons]
      obtain ⟨-, kept⟩ | ⟨-, code, coded, long⟩ := quote_char c
      · rw [kept, List.length_singleton]
        omega
      · rw [coded, List.length_cons]
        omega

/-- A text is kept exactly if all its characters are. -/
theorem quote_eq_self_iff (text : List Char) :
    quote text = text ↔ ∀ c ∈ text, isSafe c = true := by
  induction text with
  | nil => exact iff_of_true rfl fun _ mem => nomatch mem
  | cons c cs ih =>
      rw [quote_cons, List.forall_mem_cons]
      obtain ⟨safe, kept⟩ | ⟨quoted, code, coded, long⟩ := quote_char c
      · rw [kept, List.singleton_append, List.cons.injEq, ih]
        simp [safe]
      · refine iff_of_false (fun same => ?_) (fun all => ?_)
        · have lengths := congrArg List.length same
          have longer := length_quote cs
          rw [coded, List.length_append, List.length_cons, List.length_cons] at lengths
          omega
        · exact absurd all.1 (by simp [quoted])

/-- A text between two ends that are not stripped off. -/
theorem dropEnds_eq_self {p : Char → Bool} {text : List Char}
    (first : ∀ c ∈ text.head?, p c = false) (last : ∀ c ∈ text.getLast?, p c = false) :
    (text.dropWhile p).rdropWhile p = text := by
  have kept : text.dropWhile p = text := by
    cases text with
    | nil => rfl
    | cons c cs => exact List.dropWhile_cons_of_neg (by simp [first c rfl])
  rw [kept, List.rdropWhile_eq_self_iff]
  intro filled
  rw [last _ (List.getLast?_eq_some_getLast filled)]
  exact Bool.false_ne_true

/-- Nothing is dropped from behind an element that is kept. -/
theorem dropWhile_append_cons {p : Char → Bool} {c : Char} (kept : p c = false)
    (front back : List Char) :
    (front ++ c :: back).dropWhile p = front.dropWhile p ++ c :: back := by
  rw [List.dropWhile_append]
  split
  · next none =>
    rw [List.isEmpty_iff.mp none, List.dropWhile_cons_of_neg (by simp [kept]), List.nil_append]
  · rfl

/-! ### Names in normal form -/

/-- A name in normal form, below the public path of the settings. -/
structure Normal (lib : UrlLibrary) (settings : Settings) (name : List Char) : Prop where
  filled : name ≠ []
  internal : isExternalUrl lib name = .ok false
  unblank : strip name = name
  segments : [] ∉ name.splitOn '/'
  slashes : '\\' ∉ name
  below : ¬ settings.publicPath.rdropWhile (· == '/') ++ ['/'] <+: name

section

variable {lib : UrlLibrary} {settings : Settings} {name : List Char}

theorem Normal.first (normal : Normal lib settings name) : ∀ c ∈ name.head?, c ≠ '/' := by
  rintro c first rfl
  obtain ⟨rest, rfl⟩ := List.head?_eq_some_iff.mp first
  apply normal.segments
  rw [← List.nil_append ('/' :: rest), List.splitOn_append_cons_self, List.splitOn_nil]
  exact List.mem_append_left _ (List.mem_singleton_self _)

theorem Normal.last (normal : Normal lib settings name) : ∀ c ∈ name.getLast?, c ≠ '/' := by
  rintro c last rfl
  obtain ⟨rest, rfl⟩ := List.getLast?_eq_some_iff.mp last
  apply normal.segments
  rw [List.splitOn_append_cons_self, List.splitOn_nil]
  exact List.mem_append_right _ (List.mem_singleton_self _)

theorem quote_intercalate (parts : List (List Char)) :
    quote (['/'].intercalate parts) = ['/'].intercalate (parts.map quote) := by
  induction parts with
  | nil => rfl
  | cons part parts ih =>
      cases parts with
      | nil => simp
      | cons next parts =>
          have slash : quote ['/'] = ['/'] := by decide
          rw [List.intercalate_cons_cons, quote_append, quote_append, ih, slash]
          change _ = ['/'].intercalate (quote part :: quote next :: parts.map quote)
          rw [List.intercalate_cons_cons]
          rfl

/-- A name in normal form is quoted as a whole. -/
theorem Normal.quoteObjectName (normal : Normal lib settings name) :
    quoteObjectName name = quote name := by
  have whole : stripSlashes name = name := by
    apply dropEnds_eq_self
    · exact fun c first => by simpa using normal.first c first
    · exact fun c last => by simpa using normal.last c last
  have parts : (name.splitOn '/').filter (· ≠ []) = name.splitOn '/' := by
    apply List.filter_eq_self.mpr
    intro part mem
    have filled : part ≠ [] := fun none => normal.segments (none ▸ mem)
    simpa using filled
  rw [StorageUrl.quoteObjectName, whole, parts, ← quote_intercalate, List.intercalate_splitOn]

end

/-! ### The way back -/

section

variable {lib : UrlLibrary} {settings : Settings} {name : List Char}

/-- The public path without its slashes at the end. -/
def Settings.root (settings : Settings) : List Char := settings.publicPath.rdropWhile (· == '/')

theorem Normal.build (normal : Normal lib settings name) (unbased : settings.baseUrl = []) :
    buildFileAccessUrl lib settings name none none = settings.root ++ '/' :: quote name := by
  rw [buildFileAccessUrl, normal.quoteObjectName]
  simp only [Option.getD_none, unbased, ne_eq, not_true_eq_false, if_false]
  rfl

theorem isSpace_of_mem_quote {c : Char} (mem : c ∈ quote name) : isSpace c = false := by
  obtain safe | rfl := mem_quote mem
  · exact isSpace_of_isSafe safe
  · decide

theorem quote_first (normal : Normal lib settings name) : ∀ c ∈ (quote name).head?, c ≠ '/' := by
  cases name with
  | nil => exact absurd rfl normal.filled
  | cons c cs =>
      rw [quote_cons]
      obtain ⟨-, kept⟩ | ⟨-, code, coded, -⟩ := quote_char c
      · rw [kept]
        exact normal.first
      · rw [coded]
        rintro c ⟨⟩
        decide

theorem Normal.dropWhile_quote (normal : Normal lib settings name) :
    (quote name).dropWhile (· == '/') = quote name := by
  have kept := quote_first normal
  cases h : quote name with
  | nil => rfl
  | cons c cs =>
      rw [h] at kept
      exact List.dropWhile_cons_of_neg (by simpa using kept c rfl)

/-- Only blanks at the start of the public path are stripped off. -/
theorem strip_url (root : List Char) :
    strip (root ++ '/' :: quote name) = root.dropWhile isSpace ++ '/' :: quote name := by
  rw [strip, dropWhile_append_cons (by decide), List.rdropWhile_eq_self_iff]
  intro filled
  have last : (root.dropWhile isSpace ++ '/' :: quote name).getLast filled ∈ '/' :: quote name := by
    rw [List.getLast_append_of_right_ne_nil _ _ (List.cons_ne_nil _ _)]
    exact List.getLast_mem _
  obtain slash | mem := List.mem_cons.mp last
  · rw [slash]
    decide
  · rw [isSpace_of_mem_quote mem]
    exact Bool.false_ne_true

/-- The public path is found again exactly if it starts with no blank. -/
theorem prefix_url_iff (root : List Char) :
    root ++ ['/'] <+: root.dropWhile isSpace ++ '/' :: quote name ↔
      root.dropWhile isSpace = root := by
  constructor
  · intro sub
    cases root with
    | nil => rfl
    | cons c cs =>
        by_cases blank : isSpace c = true
        · obtain ⟨rest, same⟩ := sub
          have start := List.head?_dropWhile_not isSpace (c :: cs)
          cases kept : (c :: cs).dropWhile isSpace with
          | nil =>
              rw [kept] at same
              obtain rfl : c = '/' := (List.cons.inj same).1
              exact absurd blank (by decide)
          | cons d ds =>
              rw [kept] at same start
              obtain rfl : c = d := (List.cons.inj same).1
              simp [blank] at start
        · exact List.dropWhile_cons_of_neg blank
  · intro same
    rw [same]
    exact ⟨quote name, by simp⟩

/-- What is made of backslashes. -/
def slashed (text : List Char) : List Char := text.map fun c => if c = '\\' then '/' else c

theorem slashed_quote (text : List Char) : slashed (quote text) = quote text := by
  have kept : ∀ c ∈ quote text, (if c = '\\' then '/' else c) = id c := by
    intro c mem
    apply if_neg
    rintro rfl
    exact absurd (mem_quote mem) (by decide)
  rw [slashed, List.map_congr_left kept, List.map_id]

/-- The way back from the URL of a name. -/
theorem Normal.normalize (normal : Normal lib settings name) (unbased : settings.baseUrl = []) :
    normalizeObjectName lib settings (some (buildFileAccessUrl lib settings name none none)) none =
      match isExternalUrl lib (settings.root.dropWhile isSpace ++ '/' :: quote name) with
      | .error e => .error e
      | .ok true => .ok (some (settings.root.dropWhile isSpace ++ '/' :: quote name))
      | .ok false =>
          if settings.root.dropWhile isSpace = settings.root then .ok (some (quote name))
          else .ok (some ((slashed (settings.root.dropWhile isSpace) ++ '/' :: quote name).dropWhile
            (· == '/'))) := by
  have filled : settings.root.dropWhile isSpace ++ '/' :: quote name ≠ [] := by simp
  rw [normalizeObjectName, normal.build unbased]
  simp only [strip_url, filled, if_false, Option.getD_none, ne_eq, not_true_eq_false]
  cases isExternalUrl lib (settings.root.dropWhile isSpace ++ '/' :: quote name) with
  | error e => rfl
  | ok external =>
      cases external with
      | true => rfl
      | false =>
          change (if settings.root ++ ['/'] <+: _ then _ else _) = _
          simp only [prefix_url_iff]
          split
          · next same =>
            have cut : (settings.root.dropWhile isSpace ++ '/' :: quote name).drop
                (settings.root ++ ['/']).length = quote name := by
              have split : settings.root ++ '/' :: quote name =
                  (settings.root ++ ['/']) ++ quote name := by simp
              rw [same, split]
              exact List.drop_left
            exact congrArg (fun text => Except.ok (some text)) ((congrArg _ cut).trans
              normal.dropWhile_quote)
          · have whole : slashed (settings.root.dropWhile isSpace ++ '/' :: quote name) =
                slashed (settings.root.dropWhile isSpace) ++ '/' :: quote name := by
              rw [slashed, List.map_append, List.map_cons]
              change _ ++ '/' :: slashed (quote name) = _
              rw [slashed_quote]
              rfl
            exact congrArg (fun text => Except.ok (some (text.dropWhile (· == '/')))) whole

/-- Of a public path that is not found only slashes are dropped. -/
theorem Normal.dropWhile_slashed (normal : Normal lib settings name) (front : List Char) :
    (slashed front ++ '/' :: quote name).dropWhile (· == '/') = quote name ∧
        (∀ c ∈ front, c = '/' ∨ c = '\\') ∨
      (∃ rest, (slashed front ++ '/' :: quote name).dropWhile (· == '/') =
        rest ++ '/' :: quote name) ∧ ¬ ∀ c ∈ front, c = '/' ∨ c = '\\' := by
  by_cases slashes : ∀ c ∈ front, c = '/' ∨ c = '\\'
  · refine .inl ⟨?_, slashes⟩
    have dropped : ∀ c ∈ slashed front, (c == '/') = true := by
      intro c mem
      obtain ⟨d, inFront, rfl⟩ := List.mem_map.mp mem
      obtain rfl | rfl := slashes d inFront
      · rfl
      · rfl
    rw [List.dropWhile_append_of_pos dropped, List.dropWhile_cons_of_pos rfl]
    exact normal.dropWhile_quote
  · refine .inr ⟨⟨(slashed front).dropWhile (· == '/'), ?_⟩, slashes⟩
    rw [List.dropWhile_append, if_neg]
    intro none
    apply slashes
    intro c mem
    have dropped := List.dropWhile_eq_nil_iff.mp (List.isEmpty_iff.mp none) _
      (List.mem_map_of_mem mem)
    by_cases backslash : c = '\\'
    · exact .inr backslash
    · rw [if_neg backslash] at dropped
      exact .inl (beq_iff_eq.mp dropped)

/-- When the URL of a name leads back to it. -/
structure Retraceable (lib : UrlLibrary) (settings : Settings) (name : List Char) : Prop where
  unquoted : ∀ c ∈ name, isSafe c = true
  internal : isExternalUrl lib (settings.root.dropWhile isSpace ++ '/' :: name) = .ok false
  leading : settings.root.dropWhile isSpace = settings.root ∨
    ∀ c ∈ settings.root.dropWhile isSpace, c = '/' ∨ c = '\\'

/-- A quoted name is no shorter, so that only the bare one can be the name. -/
theorem append_quote_ne {front : List Char} : front ++ '/' :: quote name ≠ name := by
  intro same
  have lengths := congrArg List.length same
  have longer := length_quote name
  rw [List.length_append, List.length_cons] at lengths
  omega

theorem Normal.decoded_iff (normal : Normal lib settings name) (unbased : settings.baseUrl = []) :
    normalizeObjectName lib settings (some (buildFileAccessUrl lib settings name none none)) none =
      .ok (some name) ↔ Retraceable lib settings name := by
  rw [normal.normalize unbased]
  constructor
  · intro back
    cases external : isExternalUrl lib (settings.root.dropWhile isSpace ++ '/' :: quote name) with
    | error e =>
        rw [external] at back
        exact nomatch back
    | ok foreign =>
        rw [external] at back
        cases foreign with
        | true => exact absurd (Option.some.inj (Except.ok.inj back)) append_quote_ne
        | false =>
            simp only at back
            split at back
            · next same =>
              have bare : quote name = name := Option.some.inj (Except.ok.inj back)
              rw [bare] at external
              exact ⟨(quote_eq_self_iff name).mp bare, external, .inl same⟩
            · have bare := Option.some.inj (Except.ok.inj back)
              obtain ⟨dropped, slashes⟩ | ⟨⟨rest, kept⟩, -⟩ :=
                normal.dropWhile_slashed (settings.root.dropWhile isSpace)
              · rw [dropped] at bare
                rw [bare] at external
                exact ⟨(quote_eq_self_iff name).mp bare, external, .inr slashes⟩
              · exact absurd (kept.symm.trans bare) append_quote_ne
  · rintro ⟨unquoted, internal, leading⟩
    have bare : quote name = name := (quote_eq_self_iff name).mpr unquoted
    rw [bare, internal]
    simp only
    split
    · rfl
    · next blank =>
      obtain ⟨dropped, -⟩ | ⟨-, other⟩ :=
        normal.dropWhile_slashed (settings.root.dropWhile isSpace)
      · rw [← bare, dropped]
      · exact absurd (leading.resolve_left blank) other

/-- A name in normal form is its own object name. -/
theorem Normal.normalize_name (normal : Normal lib settings name) :
    normalizeObjectName lib settings (some name) none = .ok (some name) := by
  have unchanged : slashed name = name := by
    have kept : ∀ c ∈ name, (if c = '\\' then '/' else c) = id c := by
      intro c mem
      apply if_neg
      rintro rfl
      exact normal.slashes mem
    rw [slashed, List.map_congr_left kept, List.map_id]
  have first : name.dropWhile (· == '/') = name := by
    have kept := normal.first
    cases h : name with
    | nil => rfl
    | cons c cs =>
        rw [h] at kept
        exact List.dropWhile_cons_of_neg (by simpa using kept c rfl)
  rw [normalizeObjectName]
  simp only [normal.unblank, normal.filled, normal.internal, if_false, Option.getD_none, ne_eq,
    not_true_eq_false]
  rw [if_neg normal.below]
  exact congrArg (fun text => Except.ok (some text)) ((congrArg _ unchanged).trans first)

theorem Normal.resolve_name (normal : Normal lib settings name) :
    resolveFileUrl lib settings (some name) none none =
      .ok (some (buildFileAccessUrl lib settings name none none)) := by
  simp only [resolveFileUrl, normal.normalize_name, normal.filled, normal.internal, if_false]

/-- The URL of a name leads back to it, and is resolved to itself. -/
structure RoundTrips (lib : UrlLibrary) (settings : Settings) (name : List Char) : Prop where
  decoded : normalizeObjectName lib settings (some (buildFileAccessUrl lib settings name none none))
    none = .ok (some name)
  resolved : ∀ url, resolveFileUrl lib settings (some name) none none = .ok (some url) →
    resolveFileUrl lib settings (some url) none none = .ok (some url)

theorem roundTrips_iff (normal : Normal lib settings name) (unbased : settings.baseUrl = []) :
    RoundTrips lib settings name ↔ Retraceable lib settings name := by
  rw [← normal.decoded_iff unbased]
  refine ⟨RoundTrips.decoded, fun decoded => ⟨decoded, fun url resolved => ?_⟩⟩
  rw [normal.resolve_name] at resolved
  obtain rfl : buildFileAccessUrl lib settings name none none = url :=
    Option.some.inj (Except.ok.inj resolved)
  simp only [resolveFileUrl, decoded, normal.filled, normal.internal, if_false]

end

/-- A library that finds the scheme of a URL before its first colon. -/
def library : UrlLibrary where
  urlparse url := .ok (if ':' ∈ url then (url.takeWhile (· ≠ ':')).map Char.toLower else [])
  urljoin _ url := url

def filesApi : Settings := ⟨[], "/api/v1/files".toList⟩

theorem roundTrips_plain : RoundTrips library filesApi "cases/1.in".toList ↔
    Retraceable library filesApi "cases/1.in".toList :=
  roundTrips_iff ⟨by decide, rfl, by decide, by decide, by decide, by decide⟩ rfl

/-- The blank of a name does not come back. -/
theorem roundTrip_quoted : Normal library filesApi "a b".toList ∧
    normalizeObjectName library filesApi
        (some (buildFileAccessUrl library filesApi "a b".toList none none)) none =
      .ok (some "a%20b".toList) ∧
    ¬ RoundTrips library filesApi "a b".toList := by
  have coded : normalizeObjectName library filesApi
      (some (buildFileAccessUrl library filesApi "a b".toList none none)) none =
        .ok (some "a%20b".toList) := by decide
  refine ⟨⟨by decide, rfl, by decide, by decide, by decide, by decide⟩, coded, fun trips => ?_⟩
  exact absurd (coded.symm.trans trips.decoded) (by decide)

end AcojWorker.StorageUrl
