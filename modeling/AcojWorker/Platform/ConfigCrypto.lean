import AcojWorker.Python.Text
import AcojWorker.Python.Value
import Mathlib.Data.String.Basic

/-!
# Encrypted configuration values

Secrets among the configuration values and the storage columns are encrypted with Fernet before
they are stored. Each kind has a table of the sensitive names. Storage columns are passed on to
the functions for configuration values, which look them up in their own table and do not find
them there.
-/

namespace AcojWorker.ConfigCrypto

open Python

/-- A cipher on texts; a token depends on the moment and on random bytes. -/
structure Fernet (Nonce : Type) where
  encrypt : Nonce → String → String
  decrypt : String → Option String

/-- Only tokens decrypt, each to its text, and no token is its own text. -/
structure Fernet.Lawful {Nonce : Type} (f : Fernet Nonce) : Prop where
  decrypt_encrypt : ∀ nonce value, f.decrypt (f.encrypt nonce value) = some value
  encrypt_ne : ∀ nonce value, f.encrypt nonce value ≠ value
  encrypt_ne_empty : ∀ nonce value, f.encrypt nonce value ≠ ""
  foreign : ∀ token value, f.decrypt token = some value → ∃ nonce, token = f.encrypt nonce value

def sensitiveKeys : List String :=
  ["auth.default_password", "audit_alert.webhook_secret", "mail.password"]

def storageSensitiveColumns : List String := ["access_key", "secret_key"]

def isSensitive (configKey : String) : Bool := configKey ∈ sensitiveKeys

def isStorageSensitive (columnName : String) : Bool := columnName ∈ storageSensitiveColumns

section Functions

variable {Nonce : Type} (newFernet : String → Except Exc (Fernet Nonce))
  (configCryptoKey : Option String)

/-- `_get_fernet`, on the key of the settings. -/
def getFernet : Except Exc (Option (Fernet Nonce)) :=
  let key := String.ofList (strip (configCryptoKey.getD "").toList)
  if key ≠ "" then (newFernet key).map some else .ok none

def encryptConfigValue (nonce : Nonce) (configKey : String) (value : Option String) :
    Except Exc (Option String) :=
  match value with
  | none => .ok none
  | some text =>
      if text = "" ∨ isSensitive configKey = false then .ok value
      else
        match getFernet newFernet configCryptoKey with
        | .error e => .error e
        | .ok none => .error ⟨.runtimeError, "config_crypto_key is not configured"⟩
        | .ok (some f) => .ok (some (f.encrypt nonce text))

/-- A value that does not decrypt is taken for a plain one. -/
def decryptConfigValue (_configKey : String) (value : Option String) :
    Except Exc (Option String) :=
  match value with
  | none => .ok none
  | some text =>
      if text = "" then .ok value
      else
        match getFernet newFernet configCryptoKey with
        | .error e => .error e
        | .ok none => .ok value
        | .ok (some f) =>
            match f.decrypt text with
            | some plain => .ok (some plain)
            | none => .ok value

def encryptStorageValue (nonce : Nonce) (columnName : String) (value : Option String) :
    Except Exc (Option String) :=
  match value with
  | none => .ok none
  | some text =>
      if text = "" ∨ isStorageSensitive columnName = false then .ok value
      else encryptConfigValue newFernet configCryptoKey nonce columnName value

def decryptStorageValue (columnName : String) (value : Option String) :
    Except Exc (Option String) :=
  match value with
  | none => .ok none
  | some text =>
      if text = "" then .ok value
      else decryptConfigValue newFernet configCryptoKey columnName value

end Functions

/-! ### Two kinds of names -/

/-- A configuration key or a column of the storage table. -/
inductive Name where
  | configKey (key : String)
  | column (name : String)
deriving DecidableEq, Repr

def Name.sensitive : Name → Bool
  | .configKey key => isSensitive key
  | .column name => isStorageSensitive name

section

variable {Nonce : Type} (newFernet : String → Except Exc (Fernet Nonce))
  (configCryptoKey : Option String)

def Name.encrypt (name : Name) (nonce : Nonce) (value : Option String) :
    Except Exc (Option String) :=
  match name with
  | .configKey key => encryptConfigValue newFernet configCryptoKey nonce key value
  | .column name => encryptStorageValue newFernet configCryptoKey nonce name value

def Name.decrypt (name : Name) (value : Option String) : Except Exc (Option String) :=
  match name with
  | .configKey key => decryptConfigValue newFernet configCryptoKey key value
  | .column name => decryptStorageValue newFernet configCryptoKey name value

/-- A sensitive value is stored as a token of it, and every value is read back as it was. -/
structure StoredSafely (f : Fernet Nonce) (name : Name) (nonce : Nonce) (value : String) : Prop where
  secret : name.sensitive = true → ∃ token,
    name.encrypt newFernet configCryptoKey nonce (some value) = .ok (some token) ∧
      (∃ nonce, token = f.encrypt nonce value) ∧ token ≠ value
  readBack : ∃ stored, name.encrypt newFernet configCryptoKey nonce (some value) = .ok stored ∧
    name.decrypt newFernet configCryptoKey stored = .ok (some value)

end

section Facts

variable {Nonce : Type} {newFernet : String → Except Exc (Fernet Nonce)}
  {configCryptoKey : Option String} {f : Fernet Nonce} {value : String}

/-- Both functions for reading do the same. -/
theorem decrypt_eq (configured : getFernet newFernet configCryptoKey = .ok (some f)) (name : Name)
    (text : String) (filled : text ≠ "") : name.decrypt newFernet configCryptoKey (some text) =
      .ok (some ((f.decrypt text).getD text)) := by
  have config : ∀ key, decryptConfigValue newFernet configCryptoKey key (some text) =
      .ok (some ((f.decrypt text).getD text)) := by
    intro key
    simp only [decryptConfigValue, if_neg filled, configured]
    cases f.decrypt text with
    | none => rfl
    | some plain => rfl
  cases name with
  | configKey key => exact config key
  | column name =>
      rw [Name.decrypt, decryptStorageValue]
      exact (if_neg filled).trans (config name)

theorem encrypt_configKey (configured : getFernet newFernet configCryptoKey = .ok (some f))
    (nonce : Nonce) (key : String) (filled : value ≠ "") :
    encryptConfigValue newFernet configCryptoKey nonce key (some value) =
      .ok (some (if isSensitive key then f.encrypt nonce value else value)) := by
  rw [encryptConfigValue]
  cases sensitive : isSensitive key with
  | false => simp
  | true => simp [filled, configured]

/-- No column is in the table of the configuration keys. -/
theorem encrypt_column (configured : getFernet newFernet configCryptoKey = .ok (some f))
    (nonce : Nonce) (name : String) (filled : value ≠ "") :
    encryptStorageValue newFernet configCryptoKey nonce name (some value) = .ok (some value) := by
  rw [encryptStorageValue]
  by_cases sensitive : isStorageSensitive name = true
  · have missing : ∀ column ∈ storageSensitiveColumns, isSensitive column = false := by decide
    have plain := missing name (of_decide_eq_true sensitive)
    simp only [filled, sensitive, Bool.true_eq_false, or_self, if_false]
    rw [encrypt_configKey configured nonce name filled, plain]
    rfl
  · rw [if_pos (.inr (Bool.not_eq_true _ ▸ sensitive))]

/-- What is stored as it is comes back unless it is a token. -/
theorem readBack_plain_iff (configured : getFernet newFernet configCryptoKey = .ok (some f))
    (lawful : f.Lawful) (filled : value ≠ "") (name : Name) :
    name.decrypt newFernet configCryptoKey (some value) = .ok (some value) ↔
      ∀ nonce plain, value ≠ f.encrypt nonce plain := by
  rw [decrypt_eq configured name value filled]
  constructor
  · rintro same nonce plain rfl
    rw [lawful.decrypt_encrypt, Option.getD_some] at same
    exact lawful.encrypt_ne nonce plain (Option.some.inj (Except.ok.inj same)).symm
  · intro foreign
    cases read : f.decrypt value with
    | none => rfl
    | some plain =>
        obtain ⟨nonce, token⟩ := lawful.foreign value plain read
        exact absurd token (foreign nonce plain)

/-- A value that is stored as it is is not kept secret. -/
theorem storedSafely_plain {name : Name} {nonce : Nonce}
    (configured : getFernet newFernet configCryptoKey = .ok (some f)) (lawful : f.Lawful)
    (filled : value ≠ "")
    (plain : name.encrypt newFernet configCryptoKey nonce (some value) = .ok (some value)) :
    StoredSafely newFernet configCryptoKey f name nonce value ↔
      name.sensitive = false ∧ ∀ nonce plain, value ≠ f.encrypt nonce plain := by
  constructor
  · rintro ⟨secret, stored, same, readBack⟩
    rw [plain] at same
    cases same
    refine ⟨Bool.eq_false_iff.mpr fun sensitive => ?_,
      (readBack_plain_iff configured lawful filled name).mp readBack⟩
    obtain ⟨token, same, -, different⟩ := secret sensitive
    rw [plain] at same
    cases same
    exact different rfl
  · rintro ⟨insensitive, foreign⟩
    refine ⟨fun sensitive => absurd (insensitive.symm.trans sensitive) Bool.false_ne_true,
      some value, plain, (readBack_plain_iff configured lawful filled name).mpr foreign⟩

/-- A value is encrypted, and read back, exactly if its name is no sensitive column, and a value
that is stored as it is does not happen to be a token of the key. -/
theorem storedSafely_iff (configured : getFernet newFernet configCryptoKey = .ok (some f))
    (lawful : f.Lawful) (filled : value ≠ "") (name : Name) (nonce : Nonce) :
    StoredSafely newFernet configCryptoKey f name nonce value ↔
      (name.sensitive = true → ∃ key, name = .configKey key) ∧
        (name.sensitive = false → ∀ nonce plain, value ≠ f.encrypt nonce plain) := by
  cases name with
  | configKey key =>
      have encrypted := encrypt_configKey configured nonce key filled
      cases sensitive : (Name.configKey key).sensitive with
      | false =>
          rw [show isSensitive key = false from sensitive] at encrypted
          have plain : (Name.configKey key).encrypt newFernet configCryptoKey nonce (some value) =
            .ok (some value) := encrypted
          rw [storedSafely_plain configured lawful filled plain]
          simp [sensitive]
      | true =>
          rw [show isSensitive key = true from sensitive] at encrypted
          refine iff_of_true ⟨fun _ => ⟨_, encrypted, ⟨nonce, rfl⟩, lawful.encrypt_ne nonce value⟩,
            _, encrypted, ?_⟩ ⟨fun _ => ⟨key, rfl⟩, fun impossible => nomatch impossible⟩
          rw [if_pos rfl, decrypt_eq configured _ _ (lawful.encrypt_ne_empty nonce value),
            lawful.decrypt_encrypt]
          rfl
  | column name =>
      have plain : (Name.column name).encrypt newFernet configCryptoKey nonce (some value) =
        .ok (some value) := encrypt_column configured nonce name filled
      rw [storedSafely_plain configured lawful filled plain]
      cases sensitive : (Name.column name).sensitive with
      | false => simp
      | true => simp

end Facts

/-- A cipher that marks its tokens. -/
def marking : Fernet Unit where
  encrypt _ value := "gAAAAA" ++ value
  decrypt token :=
    if "gAAAAA".toList <+: token.toList then some (String.ofList (token.toList.drop 6)) else none

theorem marking_encrypt (value : String) :
    (marking.encrypt () value).toList = "gAAAAA".toList ++ value.toList :=
  String.toList_append ..

theorem marking_length (value : String) :
    (marking.encrypt () value).toList.length = 6 + value.toList.length := by
  rw [marking_encrypt, List.length_append]
  rfl

theorem marking_lawful : marking.Lawful where
  decrypt_encrypt nonce value := by
    rw [marking]
    change (if _ <+: (marking.encrypt () value).toList then
      some (String.ofList ((marking.encrypt () value).toList.drop 6)) else none) = _
    rw [marking_encrypt, if_pos (List.prefix_append ..)]
    exact congrArg some (String.ofList_toList ..)
  encrypt_ne nonce value := by
    intro same
    have lengths := marking_length value
    rw [same] at lengths
    omega
  encrypt_ne_empty nonce value := by
    intro same
    have lengths := marking_length value
    rw [same] at lengths
    change 0 = 6 + _ at lengths
    omega
  foreign token value h := by
    rw [marking] at h
    simp only at h
    split at h
    · next marked =>
      obtain ⟨rest, same⟩ := marked
      rw [← same] at h
      obtain rfl : String.ofList rest = value := Option.some.inj h
      refine ⟨(), String.toList_injective ?_⟩
      rw [marking_encrypt, ← same]
      exact congrArg _ String.toList_ofList.symm
    · exact nomatch h

theorem getFernet_marking : getFernet (fun _ => .ok marking) (some "key") = .ok (some marking) := by
  rw [getFernet, if_pos (by decide)]
  rfl

theorem storedSafely_marked : StoredSafely (fun _ => .ok marking) (some "key") marking
      (.configKey "mail.password") () "hunter2" ↔
    ((Name.configKey "mail.password").sensitive = true →
      ∃ key, Name.configKey "mail.password" = .configKey key) ∧
    ((Name.configKey "mail.password").sensitive = false →
      ∀ nonce plain, "hunter2" ≠ marking.encrypt nonce plain) :=
  storedSafely_iff getFernet_marking marking_lawful (by decide) _ _

/-- The secret key of a storage is stored as it is. -/
theorem secret_key_plain : isStorageSensitive "secret_key" = true ∧
    encryptStorageValue (fun _ => .ok marking) (some "key") () "secret_key" (some "hunter2") =
      .ok (some "hunter2") ∧
    ¬ StoredSafely (fun _ => .ok marking) (some "key") marking (.column "secret_key") ()
      "hunter2" := by
  have stored : encryptStorageValue (fun _ => .ok marking) (some "key") () "secret_key"
      (some "hunter2") = .ok (some "hunter2") :=
    encrypt_column getFernet_marking () "secret_key" (by decide)
  refine ⟨rfl, stored, fun safely => ?_⟩
  obtain ⟨token, same, -, different⟩ := safely.secret rfl
  exact different (Option.some.inj (Except.ok.inj (same.symm.trans stored)))

end AcojWorker.ConfigCrypto
