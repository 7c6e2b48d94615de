import AcojWorker.Cache.Mirroring

/-!
# Descriptions that stay true

A thread that has locked a key replaces its files. What the meta file says of the data file stays
true: a touch leaves the validation as it was, and a validation or a store records a time at which
the object had the content.
-/

namespace AcojWorker.FileCache.Mirror

open Python Effect Discipline

/-! ### What lasts under a lock -/

/-- How things go on for a thread that has locked a key. -/
structure Onward (t : Nat) (key : Key) (s s' : Site) : Prop where
  data : ∀ file, s'.world.files (dataPath key) = some file →
    s.world.files (dataPath key) = some file
  began : s'.began t = s.began t
  had : ∀ o c m, s.had o c m → s'.had o c m

/-- Knowledge that lasts as long as the key stays locked. -/
def Lasts (t : Nat) (key : Key) (K : Site → Prop) : Prop := ∀ s s', K s → Onward t key s s' → K s'

/-- Knowledge about the past only. -/
def OfPast (t : Nat) (K : Site → Prop) : Prop :=
  ∀ s s', K s → s'.began t = s.began t → (∀ o c m, s.had o c m → s'.had o c m) → K s'

/-- What a thread knows while it has locked a key: what it has been told, and which temporary
files it has written. -/
structure Grip (t : Nat) (K : Site → Prop) (told : Option (String × String))
    (temps : Nat → Option (Option File)) (s : Site) : Prop where
  knows : K s
  told : ∀ x, told = some x → s.told t = some x
  temps : ∀ temp x, temps temp = some x → s.world.temps temp = some (t, x)

section Lasting

variable {keys : Set Key} {t : Nat} {key : Key} {κ : Key → Nat} {K K' : Site → Prop}
  {told : Option (String × String)} {temps : Nat → Option (Option File)}

theorem lasts_true : Lasts t key fun _ => True := fun _ _ _ _ => trivial

theorem Lasts.and (lasts : Lasts t key K) (lasts' : Lasts t key K') :
    Lasts t key fun s => K s ∧ K' s :=
  fun s s' h onward => ⟨lasts s s' h.1 onward, lasts' s s' h.2 onward⟩

theorem Lasts.or {A : Prop} (lasts : Lasts t key K) : Lasts t key fun s => A ∨ K s :=
  fun s s' h onward => h.imp id fun hK => lasts s s' hK onward

theorem OfPast.lasts (past : OfPast t K) : Lasts t key K :=
  fun s s' h onward => past s s' h onward.began onward.had

theorem robust_grip (mem : key ∈ keys) (held : 0 < κ key) (lasts : Lasts t key K) :
    Robust keys t κ (Grip t K told temps) where
  stable s s' depth grip rely := by
    refine ⟨lasts s s' grip.knows ⟨?_, rely.began, rely.had⟩, fun x hx => ?_, fun temp x hx => ?_⟩
    · exact rely.data key mem (held.trans_le (depth key))
    · exact rely.told.trans (grip.told x hx)
    · exact rely.temps temp x (grip.temps temp x hx)
  gentle s s' grip change := by
    refine ⟨lasts s s' grip.knows ⟨fun file => change.files _ file, change.began, fun o c m h => ?_⟩,
      fun x hx => change.told.trans (grip.told x hx),
      fun temp x hx => change.temps temp x (grip.temps temp x hx)⟩
    rw [change.had]
    exact h

theorem Grip.mono {s : Site} (grip : Grip t K told temps s) (weaker : K s → K' s) :
    Grip t K' told temps s :=
  ⟨weaker grip.knows, grip.told, grip.temps⟩

end Lasting

/-! ### What is known of contents and times -/

/-- The content of the data file is one that the object had during the request, or not long
before. -/
def Vouched (t : Nat) (key : Key) (s : Site) : Prop :=
  ∀ objectName, key = nameKey objectName → ∀ content,
    s.world.files (dataPath key) = some (.data content) →
      ∃ moment, s.had objectName content moment ∧ s.began t - revalidateInterval ≤ moment

/-- A time that a thread has taken: if it had been told an ETag, the object had it then. -/
def Timed (etag : Bytes → String) (t : Nat) (key : Key) (told : Option (String × String)) (now : ℚ)
    (s : Site) : Prop :=
  s.began t ≤ now ∧ ∀ objectName tag, told = some (objectName, tag) → key = nameKey objectName →
    ∃ content, etag content = tag ∧ s.had objectName content now

/-- The data file holds this content, if it has not been removed. -/
def HoldsOnly (key : Key) (content : Bytes) (s : Site) : Prop :=
  ∀ file, s.world.files (dataPath key) = some file → file = .data content

section Facts

variable {etag : Bytes → String} {t : Nat} {key : Key} {told : Option (String × String)} {now : ℚ}
  {document document' : Value} {content : Bytes} {s : Site}

theorem lasts_vouched : Lasts t key (Vouched t key) := by
  intro s s' vouched onward o named content data
  obtain ⟨moment, had, late⟩ := vouched o named content (onward.data _ data)
  refine ⟨moment, onward.had o content moment had, ?_⟩
  rw [onward.began]
  exact late

theorem lasts_describes : Lasts t key (Describes etag key document) := by
  intro s s' describes onward o named content data
  exact (describes o named content (onward.data _ data)).mono (onward.had o)

theorem lasts_holdsOnly : Lasts t key (HoldsOnly key content) :=
  fun _ _ holds onward file there => holds file (onward.data file there)

theorem ofPast_timed : OfPast t (Timed etag t key told now) := by
  rintro s s' ⟨begun, confirmed⟩ began had
  refine ⟨began.trans_le begun, fun o tag known named => ?_⟩
  obtain ⟨content, same, h⟩ := confirmed o tag known named
  exact ⟨content, same, had o content now h⟩

theorem get_setField {name other : String} {v default : Value} {fields : List (String × Value)}
    (apart : other ≠ name) :
    (Value.dict (Value.setField name v fields)).get other default =
      (Value.dict fields).get other default := by
  rw [Value.get_dict, Value.get_dict, Value.lookup_setField, if_neg apart]

theorem get_setItem {name other : String} {v default : Value} (apart : other ≠ name)
    (h : document.setItem name v = .ok document') :
    document'.get other default = document.get other default := by
  cases document with
  | dict fields =>
      cases h
      exact get_setField apart
  | _ => exact nomatch h

/-- A touch leaves the validation as it was. -/
theorem Describes.touched (describes : Describes etag key document s) {accessed : Value}
    (h : document.setItem "last_accessed_at" accessed = .ok document') :
    Describes etag key document' s := by
  intro o named content data
  obtain ⟨tag, moment, validated, had⟩ := describes o named content data
  refine ⟨(get_setItem (by decide) h).trans tag, moment, ?_, had⟩
  exact (get_setItem (by decide) h).trans validated

/-- A validation records a moment at which the object had the content. -/
theorem Describes.validated (describes : Describes etag key document s) {validated accessed : ℚ}
    (had : ∀ o, key = nameKey o → ∀ content, s.world.files (dataPath key) = some (.data content) →
      s.had o content validated)
    (h : document.update [("last_validated_at", .float validated),
      ("last_accessed_at", .float accessed)] = .ok document') :
    Describes etag key document' s := by
  cases document with
  | dict fields =>
      cases h
      intro o named content data
      obtain ⟨tag, -⟩ := describes o named content data
      change Records etag _ (.dict (Value.setField "last_accessed_at" (.float accessed)
        (Value.setField "last_validated_at" (.float validated) fields))) content
      refine ⟨?_, validated, ?_, had o named content data⟩
      · rw [get_setField (by decide), get_setField (by decide)]
        exact tag
      · rw [get_setField (by decide), Value.get_dict, Value.lookup_setField, if_pos rfl]
        rfl
  | _ => exact nomatch h

/-- The document of a store describes its content. -/
theorem describes_storedMeta {sha256 tag objectName : String} (holds : HoldsOnly key content s)
    (tagged : ∀ o, key = nameKey o → etag content = tag ∧ s.had o content now) :
    Describes etag key (storedMeta content sha256 tag objectName now) s := by
  intro o named content' data
  obtain rfl : content' = content := File.data.inj (holds _ data)
  obtain ⟨rfl, had⟩ := tagged o named
  exact ⟨rfl, now, rfl, had⟩

/-- A document with the remote ETag describes a content with that ETag. -/
theorem etag_of_sameEtag {had : Bytes → ℚ → Prop} {remoteEtag : String}
    (same : sameEtag document remoteEtag = .ok true) (records : Records etag had document content) :
    etag content = remoteEtag := by
  obtain ⟨tag, -⟩ := records
  rw [sameEtag, tag] at same
  split at same
  · exact of_decide_eq_true (Except.ok.inj same)
  · cases same

/-- A description that is fresh vouches for the content. -/
theorem Describes.fresh (describes : Describes etag key document s) {stored : Value} {validated : ℚ}
    (hget : document.get "last_validated_at" (.int 0) = .ok stored)
    (hnumber : stored.number = .ok validated) (begun : s.began t ≤ now)
    (fresh : now - validated < revalidateInterval) : Vouched t key s := by
  intro o named content data
  obtain ⟨-, moment, recorded, had⟩ := describes o named content data
  obtain rfl : stored = .float moment := Except.ok.inj (hget.symm.trans recorded)
  obtain rfl : moment = validated := Except.ok.inj hnumber
  exact ⟨moment, had, by linarith⟩

/-- A content that the object had at a time of the request is vouched for. -/
theorem vouched_of_had (begun : s.began t ≤ now)
    (had : ∀ o, key = nameKey o → ∀ content, s.world.files (dataPath key) = some (.data content) →
      s.had o content now) : Vouched t key s := by
  intro o named content data
  refine ⟨now, had o named content data, ?_⟩
  rw [revalidateInterval]
  linarith

end Facts

/-! ### Rules for calls -/

section Rules

variable {keys : Set Key} {etag : Bytes → String} {t : Nat} {key : Key} {κ : Key → Nat}
  {K : Site → Prop} {told : Option (String × String)} {temps : Nat → Option (Option File)}
  {E : Exc → Site → Prop} (mem : key ∈ keys) (held : 0 < κ key) (lasts : Lasts t key K)

include mem held lasts

/-- The time is taken; what the thread has been told is not used again. -/
theorem grip_now :
    (mirroring keys etag).Triple t (Under t κ (Grip t K told temps)) (call .now)
      (Post (fun (now : ℚ) =>
        Under t κ (Grip t (fun s => K s ∧ Timed etag t key told now s) none temps)) E) := by
  refine triple_perform (under_stable (robust_grip mem held lasts)) (fun _ _ _ _ => trivial) ?_
  rintro s _ _ inv ⟨depth, grip⟩ confirmed ⟨rfl, rfl⟩
  refine ⟨keeps_exec .now inv trivial ⟨rfl, rfl⟩, depth, ?_, nofun, grip.temps⟩
  refine ⟨lasts s _ grip.knows ⟨fun _ h => h, rfl, fun _ _ _ h => h⟩, inv.begun t, ?_⟩
  rintro o tag known rfl
  have same := confirmed o tag (grip.told _ known) (held.trans_le (depth _))
  obtain ⟨content, there, tagged⟩ := Option.map_eq_some_iff.mp same
  exact ⟨content, tagged, inv.current o content there⟩

theorem grip_headOrNone (objectName : String) :
    (mirroring keys etag).Triple t (Under t κ (Grip t K told temps)) (headOrNone objectName)
      (Post (fun (head : Option String) =>
        Under t κ (Grip t K (head.map fun tag => (objectName, tag)) temps)) E) := by
  refine triple_tryCatch (E := fun _ => Under t κ (Grip t K none temps)) ?_
    fun e => triple_ret fun _ _ h => h
  refine triple_perform (under_stable (robust_grip mem held lasts)) (fun _ _ _ _ => trivial) ?_
  rintro s r s' inv ⟨depth, grip⟩ _ h
  refine ⟨keeps_exec (.headObject objectName) inv trivial h, ?_⟩
  have knows : ∀ answer, K (s.tell t answer) :=
    fun answer => lasts s _ grip.knows ⟨fun _ h => h, rfl, fun _ _ _ h => h⟩
  rcases h with ⟨e, rfl, rfl⟩ | ⟨rfl, rfl⟩
  · exact ⟨depth, knows none, nofun, grip.temps⟩
  · refine ⟨depth, knows _, fun x hx => ?_, grip.temps⟩
    refine (Function.update_self ..).trans ?_
    rw [Option.map_map] at hx
    exact hx

/-- What is downloaded has the ETag that the thread has been told. -/
theorem grip_download (objectName : String) :
    (mirroring keys etag).Triple t (Under t κ (Grip t K told temps)) (call (.download objectName))
      (Post (fun (content : Bytes) s => (∀ tag, told = some (objectName, tag) →
          key = nameKey objectName → etag content = tag) ∧ Under t κ (Grip t K told temps) s)
        fun _ _ => True) := by
  have robust : Robust keys t κ (Grip t K told temps) := robust_grip mem held lasts
  refine triple_perform (under_stable robust) (fun _ _ _ _ => trivial) ?_
  intro s r s' inv under confirmed h
  obtain ⟨keeps, after⟩ := under_exec (.download objectName) robust trivial inv under h
  refine ⟨keeps, ?_⟩
  rcases h with ⟨e, rfl, rfl⟩ | ⟨content, there, rfl, rfl⟩
  · exact trivial
  · refine ⟨fun tag known named => ?_, after⟩
    have same := confirmed objectName tag (under.knows.told _ known)
      (named ▸ held.trans_le (under.depth _))
    rw [there] at same
    exact Option.some.inj same

/-- What is read of the meta file describes the data file. -/
theorem grip_readMeta :
    (mirroring keys etag).Triple t (Under t κ (Grip t K told temps)) (readMeta (metaPath key))
      (Post (fun (document : Value) => Under t κ
          (Grip t (fun s => K s ∧ (document = .none ∨ Describes etag key document s)) told temps))
        fun _ _ => True) := by
  have robust : Robust keys t κ (Grip t K told temps) := robust_grip mem held lasts
  refine triple_tryCatch (E := fun _ => Under t κ (Grip t K told temps)) ?_ fun e => ?_
  · refine triple_perform (under_stable robust) (fun _ _ _ _ => trivial) ?_
    intro s r s' inv under _ h
    obtain ⟨keeps, after⟩ := under_exec (.loadJson (metaPath key)) robust trivial inv under h
    refine ⟨keeps, ?_⟩
    obtain ⟨_, ⟨rfl, answers⟩, rfl⟩ := h
    cases r with
    | error e => exact after
    | ok v =>
        refine ⟨after.depth, after.knows.mono fun knows => ⟨knows, .inr ?_⟩⟩
        have read := answers v rfl
        match there : s.world.files (metaPath key), read with
        | some file, read =>
            obtain ⟨document, rfl, describes⟩ := inv.paired key mem file there
            obtain rfl : v = document := read
            exact describes
  · refine triple_ite (fun _ => triple_ret fun s _ h => ?_) fun _ => triple_raise fun _ _ _ => trivial
    exact ⟨h.depth, h.knows.mono fun knows => ⟨knows, .inl rfl⟩⟩

/-- A new temporary file is the thread's own. -/
theorem grip_newTemp (path : Path) :
    (mirroring keys etag).Triple t (Under t κ (Grip t K told temps)) (call (.tempSibling path))
      (Post (fun (temp : Nat) s => temps temp = none ∧
        Under t κ (Grip t K told (Function.update temps temp (some none))) s) E) := by
  have robust : Robust keys t κ (Grip t K told temps) := robust_grip mem held lasts
  refine triple_perform (under_stable robust) (fun _ _ _ _ => trivial) ?_
  intro s r s' inv under _ h
  obtain ⟨keeps, after⟩ := under_exec (.tempSibling path) robust trivial inv under h
  refine ⟨keeps, ?_⟩
  obtain ⟨_, ⟨temp, unused, rfl, rfl⟩, rfl⟩ := h
  have fresh : temps temp = none := by
    by_contra known
    obtain ⟨x, hx⟩ := Option.ne_none_iff_exists'.mp known
    exact nomatch unused.symm.trans (under.knows.temps temp x hx)
  refine ⟨fresh, after.depth, after.knows.knows, after.knows.told, fun i x hx => ?_⟩
  by_cases same : i = temp
  · subst same
    rw [Function.update_self] at hx
    cases hx
    exact Function.update_self ..
  · rw [Function.update_of_ne same] at hx
    exact after.knows.temps i x hx

omit mem held lasts in
/-- The thread writes to a temporary file of its own. -/
theorem grip_setTemp {temp : Nat} {x : Option File} (y : Option File) {s : Site}
    (inv : Mirrored keys etag s)
    (under : Under t κ (Grip t K told (Function.update temps temp (some x))) s)
    (knows : K (s.withWorld (s.world.setTemp temp (some (t, y))))) :
    (mirroring keys etag).Keeps t s (s.withWorld (s.world.setTemp temp (some (t, y)))) ∧
      Under t κ (Grip t K told (Function.update temps temp (some y)))
        (s.withWorld (s.world.setTemp temp (some (t, y)))) := by
  have own := under.knows.temps temp x (Function.update_self ..)
  refine ⟨keeps_withWorld inv (spares_setTemp own _), under.depth, knows, under.knows.told,
    fun i z hz => ?_⟩
  by_cases same : i = temp
  · subst same
    rw [Function.update_self] at hz
    cases hz
    exact Function.update_self ..
  · rw [Function.update_of_ne same] at hz
    refine (Function.update_of_ne same ..).trans (under.knows.temps i z ?_)
    rw [Function.update_of_ne same]
    exact hz

theorem grip_writeTemp (temp : Nat) (x : Option File) (file : File) :
    (mirroring keys etag).Triple t
      (Under t κ (Grip t K told (Function.update temps temp (some x))))
      (call (.writeTemp temp file))
      (Post (fun _ => Under t κ (Grip t K told (Function.update temps temp (some (some file)))))
        fun _ s => ∃ left, Under t κ (Grip t K told (Function.update temps temp (some left))) s) := by
  refine triple_perform (under_stable (robust_grip mem held lasts)) (fun _ _ _ _ => trivial) ?_
  rintro s r s' inv under _ ⟨w, answers, rfl⟩
  have knows : ∀ y, K (s.withWorld (s.world.setTemp temp (some (t, y)))) :=
    fun y => lasts s _ under.knows.knows ⟨fun _ h => h, rfl, fun _ _ _ h => h⟩
  obtain ⟨e, left, rfl, rfl⟩ | ⟨rfl, rfl⟩ := answers
  · obtain ⟨keeps, after⟩ := grip_setTemp left inv under (knows left)
    exact ⟨keeps, left, after⟩
  · exact grip_setTemp (some file) inv under (knows _)

omit mem held lasts in
/-- What is known of the other temporary files after one is gone. -/
theorem temps_dropped {w : World} {temp : Nat} {x : Option File} (unknown : temps temp = none)
    (known : ∀ i z, Function.update temps temp (some x) i = some z → w.temps i = some (t, z))
    (i : Nat) (z : Option File) (hz : temps i = some z) :
    (w.setTemp temp none).temps i = some (t, z) := by
  have apart : i ≠ temp := by
    rintro rfl
    exact nomatch unknown.symm.trans hz
  refine (Function.update_of_ne apart ..).trans (known i z ?_)
  rw [Function.update_of_ne apart]
  exact hz

theorem grip_unlinkTemp {temp : Nat} (unknown : temps temp = none) :
    (mirroring keys etag).Triple t
      (fun s => ∃ x, Under t κ (Grip t K told (Function.update temps temp (some x))) s)
      (call (.unlinkTemp temp)) fun _ => Under t κ (Grip t K told temps) := by
  refine triple_exists fun x =>
    triple_perform (under_stable (robust_grip mem held lasts)) (fun _ _ _ _ => trivial) ?_
  rintro s r s' inv under _ ⟨w, answers, rfl⟩
  have own := under.knows.temps temp x (Function.update_self ..)
  obtain ⟨e, rfl, rfl⟩ | ⟨rfl, rfl⟩ := answers
  · refine ⟨keeps_withWorld inv (spares_refl t _), under.depth, under.knows.knows, under.knows.told,
      fun i z hz => under.knows.temps i z ?_⟩
    have apart : i ≠ temp := by
      rintro rfl
      exact nomatch unknown.symm.trans hz
    rw [Function.update_of_ne apart]
    exact hz
  · exact ⟨keeps_withWorld inv (spares_setTemp own none), under.depth,
      lasts s _ under.knows.knows ⟨fun _ h => h, rfl, fun _ _ _ h => h⟩, under.knows.told,
      temps_dropped unknown under.knows.temps⟩

end Rules

/-! ### Replacing files -/

section Replacing

variable {keys : Set Key} {etag : Bytes → String} {t : Nat} {key : Key} {κ : Key → Nat}
  {K : Site → Prop} {told : Option (String × String)} {temps : Nat → Option (Option File)}
  (own : OwnFiles keys) (mem : key ∈ keys) (held : 0 < κ key)

include own mem held

/-- A meta file that describes the data file takes its place. -/
theorem grip_replaceMeta (lasts : Lasts t key K) {temp : Nat} {document : Value}
    (unknown : temps temp = none) (describes : ∀ s, K s → Describes etag key document s) :
    (mirroring keys etag).Triple t
      (Under t κ (Grip t K told (Function.update temps temp (some (some (.json document))))))
      (call (.replace temp (metaPath key)))
      (Post (fun _ => Under t κ (Grip t K told temps))
        fun _ s => ∃ x, Under t κ (Grip t K told (Function.update temps temp (some x))) s) := by
  refine triple_perform (under_stable (robust_grip mem held lasts)) (fun _ _ _ _ => trivial) ?_
  rintro s r s' inv under _ ⟨w, answers, rfl⟩
  have mine := under.knows.temps temp _ (Function.update_self ..)
  obtain ⟨e, rfl, rfl⟩ | ⟨owner, file, there, rfl, rfl⟩ := answers
  · exact ⟨keeps_withWorld inv (spares_refl t _), _, under⟩
  obtain rfl : file = .json document := by
    rw [mine] at there
    exact (Option.some.inj (congrArg Prod.snd (Option.some.inj there))).symm
  have apart : dataPath key ≠ metaPath key := dataPath_ne_metaPath key
  have same : ((s.world.setTemp temp none).put (metaPath key) (.json document)).files
      (dataPath key) = s.world.files (dataPath key) := put_other apart
  refine ⟨keeps_takesPlace own inv mem (held.trans_le (under.depth key)) mine (.inr rfl) _
    (fun wrong => absurd wrong.symm apart) ?_, under.depth, ?_, under.knows.told,
    temps_dropped unknown under.knows.temps⟩
  · intro file there
    change ((s.world.setTemp temp none).put (metaPath key) (.json document)).files _ = _ at there
    rw [put_self] at there
    cases there
    refine ⟨document, rfl, fun o named content data => ?_⟩
    exact describes s under.knows.knows o named content (same.symm.trans data)
  · exact lasts s _ under.knows.knows
      ⟨fun file there => same.symm.trans there, rfl, fun _ _ _ h => h⟩

/-- A data file takes its place when no meta file is there. -/
theorem grip_replaceData (past : OfPast t K) {temp : Nat} {content : Bytes}
    (unknown : temps temp = none) :
    (mirroring keys etag).Triple t
      (Under t κ (Grip t K told (Function.update temps temp (some (some (.data content))))))
      (call (.replace temp (dataPath key)))
      (Post (fun _ => Under t κ (Grip t (fun s => K s ∧ HoldsOnly key content s) told temps))
        fun _ _ => True) := by
  refine triple_perform (under_stable (robust_grip mem held past.lasts)) (fun _ _ _ _ => trivial) ?_
  rintro s r s' inv under alone ⟨w, answers, rfl⟩
  have mine := under.knows.temps temp _ (Function.update_self ..)
  obtain ⟨e, rfl, rfl⟩ | ⟨owner, file, there, rfl, rfl⟩ := answers
  · exact ⟨keeps_withWorld inv (spares_refl t _), trivial⟩
  obtain rfl : file = .data content := by
    rw [mine] at there
    exact (Option.some.inj (congrArg Prod.snd (Option.some.inj there))).symm
  have same : ((s.world.setTemp temp none).put (dataPath key) (.data content)).files
      (metaPath key) = s.world.files (metaPath key) := put_other (dataPath_ne_metaPath key).symm
  refine ⟨keeps_takesPlace own inv mem (held.trans_le (under.depth key)) mine (.inl rfl) _
    (fun _ => ⟨content, rfl⟩) ?_, under.depth, ⟨?_, ?_⟩, under.knows.told,
    temps_dropped unknown under.knows.temps⟩
  · intro file there
    have before := same.symm.trans there
    obtain ⟨document, rfl, -⟩ := inv.paired key mem file before
    refine ⟨document, rfl, ?_⟩
    rintro o rfl
    exact nomatch (alone o mem rfl).symm.trans before
  · exact past s _ under.knows.knows rfl fun _ _ _ h => h
  · intro file there
    change ((s.world.setTemp temp none).put (dataPath key) (.data content)).files _ = _ at there
    rw [put_self] at there
    exact (Option.some.inj there).symm

/-! ### Meta files -/

theorem grip_writeMeta (lasts : Lasts t key K) {document : Value}
    (describes : ∀ s, K s → Describes etag key document s) :
    (mirroring keys etag).Triple t (Under t κ (Grip t K told noTemps))
      (writeMeta (metaPath key) document)
      (Post (fun _ => Under t κ (Grip t K told noTemps)) fun _ _ => True) := by
  refine triple_bind (grip_newTemp mem held lasts (metaPath key)) fun tmp =>
    triple_pure fun unknown => ?_
  refine triple_tryCatch (E := fun _ s =>
    ∃ x, Under t κ (Grip t K told (Function.update noTemps tmp (some x))) s) ?_ ?_
  · refine triple_step
      (R := fun _ => Under t κ (Grip t K told (Function.update noTemps tmp (some none))))
      (E := fun _ => Under t κ (Grip t K told (Function.update noTemps tmp (some none))))
      (triple_post (triple_meek (Program.calls_perform trivial) (robust_grip mem held lasts)) ?_)
      (fun _ _ h => ⟨none, h⟩) fun _ => ?_
    · rintro (e | a) s _ h <;> exact h
    refine triple_bind (grip_writeTemp mem held lasts tmp none _) fun _ => ?_
    exact grip_replaceMeta own mem held lasts unknown describes
  · intro e
    refine triple_ite (fun _ => ?_) fun _ => triple_raise fun _ _ _ => trivial
    refine triple_tryCatch (E := fun _ => Under t κ (Grip t K told noTemps)) (triple_post
      (grip_unlinkTemp mem held lasts unknown) ?_) ?_
    · rintro (e | a) s _ h <;> exact h
    · exact fun e => triple_ite (fun _ => triple_ret fun _ _ h => h)
        fun _ => triple_raise fun _ _ _ => trivial

/-- A touch changes nothing of what is known. -/
theorem grip_touchMeta (lasts : Lasts t key K) :
    (mirroring keys etag).Triple t (Under t κ (Grip t K none noTemps)) (touchMeta (metaPath key))
      (Post (fun _ => Under t κ (Grip t K none noTemps)) fun _ _ => True) := by
  refine triple_bind (grip_readMeta mem held lasts) fun document => ?_
  have lasts' : Lasts t key fun s => K s ∧ (document = .none ∨ Describes etag key document s) :=
    lasts.and lasts_describes.or
  split
  · exact triple_ret fun s _ h => ⟨h.depth, h.knows.mono fun knows => knows.1⟩
  · next document some =>
    refine triple_bind (grip_now mem held lasts') fun now =>
      lift_step fun stored _ => lift_step fun accessed _ => ?_
    have timed : Lasts t key (Timed etag t key none now) := ofPast_timed.lasts
    refine triple_ite (fun _ => triple_ret fun s _ h => ?_) fun _ => lift_step fun document' set => ?_
    · exact ⟨h.depth, h.knows.mono fun knows => knows.1.1⟩
    · refine triple_post (grip_writeMeta own mem held (lasts'.and timed) fun s knows => ?_) ?_
      · exact (knows.1.2.resolve_left some).touched set
      · rintro (e | a) s _ h
        · exact trivial
        · exact ⟨h.depth, h.knows.mono fun knows => knows.1.1⟩

/-- A validation may be recorded if the object had the content then. -/
theorem grip_updateMeta (lasts : Lasts t key K) {validated accessed : ℚ}
    (had : ∀ s, K s → ∀ o, key = nameKey o → ∀ content,
      s.world.files (dataPath key) = some (.data content) → s.had o content validated) :
    (mirroring keys etag).Triple t (Under t κ (Grip t K none noTemps))
      (updateMeta (metaPath key)
        [("last_validated_at", .float validated), ("last_accessed_at", .float accessed)])
      (Post (fun _ => Under t κ (Grip t K none noTemps)) fun _ _ => True) := by
  refine triple_bind (grip_readMeta mem held lasts) fun document => ?_
  split
  · exact triple_ret fun s _ h => ⟨h.depth, h.knows.mono fun knows => knows.1⟩
  · next document some =>
    refine lift_step fun document' updated => ?_
    refine triple_post (grip_writeMeta own mem held (lasts.and lasts_describes.or)
      fun s knows => ?_) ?_
    · exact (knows.2.resolve_left some).validated (had s knows.1) updated
    · rintro (e | a) s _ h
      · exact trivial
      · exact ⟨h.depth, h.knows.mono fun knows => knows.1⟩

/-- A content is stored with the ETag that it has, and that the object had when the store took
its time. -/
theorem grip_storeFiles (injective : Function.Injective etag) {content : Bytes}
    {objectName tag : String} (digest : String) (named : ∀ o, key = nameKey o → objectName = o)
    (tagged : key = nameKey objectName → etag content = tag) :
    (mirroring keys etag).Triple t
      (Under t κ (Grip t (fun _ => True) (some (objectName, tag)) noTemps))
      (storeFiles key content digest tag objectName)
      (Post (fun _ => Under t κ (Grip t (Vouched t key) none noTemps)) fun _ _ => True) := by
  refine meek_step (Program.calls_perform trivial) (robust_grip mem held lasts_true) fun _ => ?_
  refine triple_bind (grip_newTemp mem held lasts_true _) fun tmpData =>
    triple_pure fun unknown => ?_
  refine triple_bind (grip_newTemp mem held lasts_true _) fun tmpMeta =>
    triple_pure fun unused => ?_
  refine triple_bind (grip_now mem held lasts_true) fun now => ?_
  have apart : tmpMeta ≠ tmpData := by
    rintro rfl
    rw [Function.update_self] at unused
    exact nomatch unused
  rw [Function.update_comm apart.symm]
  have unknown' : Function.update noTemps tmpMeta (some none) tmpData = none :=
    (Function.update_of_ne apart.symm ..).trans unknown
  have past : OfPast t fun s => True ∧ Timed etag t key (some (objectName, tag)) now s :=
    fun s s' h began had => ⟨trivial, ofPast_timed s s' h.2 began had⟩
  refine triple_bind (mutes (grip_writeTemp mem held past.lasts tmpData none _)) fun _ => ?_
  refine triple_bind (grip_replaceData own mem held past unknown') fun _ => ?_
  have holds : Lasts t key (HoldsOnly key content) := lasts_holdsOnly
  have stored : ∀ s, (True ∧ Timed etag t key (some (objectName, tag)) now s) ∧
      HoldsOnly key content s → ∀ o, key = nameKey o → etag content = tag ∧ s.had o content now := by
    rintro s ⟨⟨-, -, confirmed⟩, -⟩ o here
    obtain rfl := named o here
    obtain ⟨content', same, had⟩ := confirmed objectName tag rfl here
    obtain rfl : content' = content := injective (same.trans (tagged here).symm)
    exact ⟨same, had⟩
  refine triple_bind (mutes (grip_writeTemp mem held (past.lasts.and holds) tmpMeta none _)) fun _ => ?_
  refine triple_bind (mutes (grip_replaceMeta own mem held (past.lasts.and holds) rfl
    fun s knows => ?_)) fun _ => ?_
  · exact describes_storedMeta knows.2 (stored s knows)
  · refine triple_ret fun s _ h => ⟨h.depth, h.knows.mono fun knows => ?_⟩
    refine vouched_of_had knows.1.2.1 fun o here content' data => ?_
    obtain rfl : content' = content := File.data.inj (knows.2 _ data)
    exact (stored s knows o here).2

end Replacing

end AcojWorker.FileCache.Mirror
