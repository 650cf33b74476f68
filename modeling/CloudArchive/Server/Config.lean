import CloudArchive.GoStrings

/-!
# Server — the configuration the server starts from

`GetConfig` reads the `[Global]` section of the configuration file with `gcfg` and passes it to
`verifyConfig`. `verifyConfig` checks the fields one after another, each failure with its own
message, and fills in three defaults: the backend type `file`, the default port of the listen
address (`icfg.AppendDefaultPort(…, 443)`), and the log level `WARN`. `main` then picks the
storage backend with a `switch` on `Backend_Type` that has a case for `file` and one for `ftp`
and none else, and hands the result to `NewWebserver` as its `ShardHandler`.

`writableDir` (`os.Stat` and `unix.Access`) and `AppendDefaultPort` read the host or live in
another repository, so they are parameters here.

* `verifyConfig_ok_iff`: `verifyConfig` accepts exactly the configurations that satisfy
  `Global.Acceptable`, the file's own terms, and it hands back `Global.withDefaults`.
* `verifyConfig_selectBackend`: an accepted configuration gets no backend exactly when its
  `Backend_Type` is neither empty, `file` nor `ftp`. `verifyConfig`'s `switch` has no `default`,
  so a type such as `FTP` passes. `main`'s `switch` then leaves the handler `nil`, and
  `NewWebserver` stores it as the `ShardHandler` without a check.
-/

namespace CloudArchive.Server

open CloudArchive

/-- `BackendTypeFile` -/
def backendTypeFile : List Char := "file".data
/-- `BackendTypeFTP` -/
def backendTypeFTP : List Char := "ftp".data
/-- `DefaultBackendType` -/
def defaultBackendType : List Char := backendTypeFile

/-- The `[Global]` section of the configuration file (`cfgType`) as `gcfg` reads it. `Log_File`
only reaches the logger and is left out. -/
structure Global where
  listenAddress : List Char
  disableTLS : Bool
  certFile : List Char
  keyFile : List Char
  passwordFile : List Char
  logLevel : List Char
  backendType : List Char
  storageDirectory : List Char
  ftpServer : List Char
  remoteBaseDirectory : List Char
  ftpUsername : List Char
  ftpPassword : List Char
  deriving DecidableEq, Repr

/-- `unicode.ToUpper` as the log-level check sees it. The ASCII lower-case letters map to their
upper case, and `ı` and `ſ` map to `I` and `S`. Every other rune has a non-ASCII upper case or
is its own, and is kept, which no comparison with an ASCII level can tell apart. -/
def toUpperRune (c : Char) : Char :=
  if c = 'ı' then 'I' else if c = 'ſ' then 'S' else c.toUpper

/-- `strings.ToUpper` -/
def toUpper (s : List Char) : List Char := s.map toUpperRune

/-- The log levels `verifyConfig` takes as they are. -/
def logLevels : List (List Char) := ["INFO".data, "WARN".data, "ERROR".data, "OFF".data]

/-- `verifyConfig`: the checks in order, each failure with its message. On success it returns
the configuration with the default backend type, the listen address with its default port, and
the default log level. `writableDir` answers the error of `writableDir`, if any. -/
def verifyConfig (writableDir : List Char → Option (List Char))
    (appendDefaultPort : List Char → List Char) (c : Global) : Except (List Char) Global :=
  if !c.disableTLS && c.certFile = [] then .error "Must specify Cert-File".data
  else if !c.disableTLS && c.keyFile = [] then .error "Must specify Key-File".data
  else if c.passwordFile = [] then .error "Must specify Password-File".data
  else
  let c := if c.backendType = [] then { c with backendType := defaultBackendType } else c
  if c.storageDirectory = [] then .error "Must specify Storage-Directory".data
  else match writableDir c.storageDirectory with
  | some e => .error ("Storage-Directory error ".data ++ e)
  | none =>
    if c.backendType = backendTypeFTP && c.ftpServer = [] then
      .error "Must specify FTP-Server".data
    else if c.backendType = backendTypeFTP && c.ftpUsername = [] then
      .error "Must specify FTP-Username".data
    else if c.backendType = backendTypeFTP && c.ftpPassword = [] then
      .error "Must specify FTP-Password".data
    else if c.listenAddress = [] then .error "Listen-Address is empty".data
    else
    let c := { c with listenAddress := appendDefaultPort c.listenAddress }
    let ll := toUpper (trimSpace c.logLevel)
    if ll ∈ logLevels then .ok c
    else if ll = [] then .ok { c with logLevel := "WARN".data }
    else .error (c.logLevel ++ " is an invalid log level".data)

/-- The storage backends `main` can build, with the fields it passes to their constructors. -/
inductive Backend
  /-- `filestore.NewFilestoreHandler(Storage_Directory)` -/
  | file (storageDirectory : List Char)
  /-- `ftpstore.NewFtpStoreHandler` of an `FtpStoreConfig` -/
  | ftp (localStore ftpServer baseDir username password : List Char)
  deriving DecidableEq, Repr

/-- `main`'s `switch` on `Backend_Type`; no case matches another type, and `handler` stays `nil`
(`none`). -/
def selectBackend (c : Global) : Option Backend :=
  if c.backendType = backendTypeFile then some (.file c.storageDirectory)
  else if c.backendType = backendTypeFTP then
    some (.ftp c.storageDirectory c.ftpServer c.remoteBaseDirectory c.ftpUsername c.ftpPassword)
  else none

/-- What a backend's constructor needs from the configuration: the file store a directory, the
FTP store its staging directory, its server and its credentials. -/
def Backend.Complete : Backend → Prop
  | .file dir => dir ≠ []
  | .ftp dir srv _ user pw => dir ≠ [] ∧ srv ≠ [] ∧ user ≠ [] ∧ pw ≠ []

instance : DecidablePred Backend.Complete
  | .file _ => inferInstanceAs (Decidable (_ ≠ _))
  | .ftp .. => inferInstanceAs (Decidable (_ ∧ _))

/-! ## What `verifyConfig` accepts -/

/-- What `verifyConfig` accepts, in the terms of the configuration file. -/
structure Global.Acceptable (writableDir : List Char → Option (List Char)) (c : Global) :
    Prop where
  /-- with TLS, both the certificate and the key are named -/
  tls : c.disableTLS = false → c.certFile ≠ [] ∧ c.keyFile ≠ []
  passwordFile : c.passwordFile ≠ []
  /-- the storage directory is named, and `writableDir` finds no fault with it -/
  storage : c.storageDirectory ≠ [] ∧ writableDir c.storageDirectory = none
  /-- the FTP backend has its server and credentials -/
  ftp : c.backendType = backendTypeFTP → c.ftpServer ≠ [] ∧ c.ftpUsername ≠ [] ∧ c.ftpPassword ≠ []
  listen : c.listenAddress ≠ []
  /-- the log level, trimmed and upper-cased, is a level or empty -/
  logLevel : toUpper (trimSpace c.logLevel) ∈ logLevels ∨ toUpper (trimSpace c.logLevel) = []

/-- The configuration `verifyConfig` hands back: the default backend type, the default port and
the default log level filled in. -/
def Global.withDefaults (appendDefaultPort : List Char → List Char) (c : Global) : Global :=
  { c with
    backendType := if c.backendType = [] then defaultBackendType else c.backendType
    listenAddress := appendDefaultPort c.listenAddress
    logLevel := if toUpper (trimSpace c.logLevel) = [] then "WARN".data else c.logLevel }

/-- `WARN` is no empty string, so the log-level check never takes both of its branches. -/
theorem logLevels_ne_nil : ∀ l ∈ logLevels, l ≠ [] := by decide

/-- Defaulting the backend type changes that field alone. -/
theorem default_backendType (c : Global) :
    (if c.backendType = [] then { c with backendType := defaultBackendType } else c) =
      { c with backendType := if c.backendType = [] then defaultBackendType else c.backendType } := by
  split <;> rfl

/-- The defaulted backend type is `ftp` exactly when the file's is. -/
theorem default_eq_ftp (b : List Char) :
    (if b = [] then defaultBackendType else b) = backendTypeFTP ↔ b = backendTypeFTP := by
  split_ifs with hb
  · subst hb; decide
  · rfl

/-- A check of `verifyConfig` passes a result through only when it does not fail. -/
theorem ite_error_eq_ok {p : Prop} [Decidable p] {m : List Char} {k : Except (List Char) Global}
    {x : Global} : (if p then .error m else k) = .ok x ↔ ¬p ∧ k = .ok x := by
  split <;> simp_all

/-- A configuration `verifyConfig` accepts satisfies `Acceptable`, and comes back with its
defaults filled in. -/
theorem verifyConfig_ok_spec {writableDir : List Char → Option (List Char)}
    {appendDefaultPort : List Char → List Char} {c c' : Global}
    (h : verifyConfig writableDir appendDefaultPort c = .ok c') :
    c.Acceptable writableDir ∧ c' = c.withDefaults appendDefaultPort := by
  unfold verifyConfig at h
  rw [default_backendType] at h
  simp only [ite_error_eq_ok, default_eq_ftp, Bool.and_eq_true, Bool.not_eq_true',
    decide_eq_true_eq] at h
  obtain ⟨h1, h2, h3, h4, h⟩ := h
  cases hw : writableDir c.storageDirectory with
  | some e => simp [hw] at h
  | none =>
  simp only [hw, ite_error_eq_ok] at h
  obtain ⟨h5, h6, h7, h8, h⟩ := h
  have hacc : toUpper (trimSpace c.logLevel) ∈ logLevels ∨ toUpper (trimSpace c.logLevel) = [] →
      c.Acceptable writableDir := fun hl =>
    ⟨fun ht => ⟨fun e => h1 ⟨ht, e⟩, fun e => h2 ⟨ht, e⟩⟩, h3, ⟨h4, hw⟩,
      fun hf => ⟨fun e => h5 ⟨hf, e⟩, fun e => h6 ⟨hf, e⟩, fun e => h7 ⟨hf, e⟩⟩, h8, hl⟩
  by_cases h9 : toUpper (trimSpace c.logLevel) ∈ logLevels
  · rw [if_pos h9, Except.ok.injEq] at h
    subst h
    exact ⟨hacc (.inl h9), by rw [Global.withDefaults, if_neg (logLevels_ne_nil _ h9)]⟩
  by_cases h10 : toUpper (trimSpace c.logLevel) = []
  · rw [if_neg h9, if_pos h10, Except.ok.injEq] at h
    subst h
    exact ⟨hacc (.inr h10), by rw [Global.withDefaults, if_pos h10]⟩
  rw [if_neg h9, if_neg h10] at h
  cases h

/-- **What `verifyConfig` accepts.** It succeeds exactly on the configurations that satisfy
`Acceptable`, and then returns the configuration with its defaults filled in. -/
theorem verifyConfig_ok_iff (writableDir : List Char → Option (List Char))
    (appendDefaultPort : List Char → List Char) (c c' : Global) :
    verifyConfig writableDir appendDefaultPort c = .ok c' ↔
      c.Acceptable writableDir ∧ c' = c.withDefaults appendDefaultPort := by
  refine ⟨verifyConfig_ok_spec, ?_⟩
  rintro ⟨⟨htls, hpw, ⟨hsd, hw⟩, hftp, hla, hll⟩, rfl⟩
  unfold verifyConfig
  rw [default_backendType]
  simp only [ite_error_eq_ok, default_eq_ftp, Bool.and_eq_true, Bool.not_eq_true',
    decide_eq_true_eq, hw]
  refine ⟨fun ⟨ht, e⟩ => (htls ht).1 e, fun ⟨ht, e⟩ => (htls ht).2 e, hpw, hsd,
    fun ⟨hf, e⟩ => (hftp hf).1 e, fun ⟨hf, e⟩ => (hftp hf).2.1 e, fun ⟨hf, e⟩ => (hftp hf).2.2 e,
    hla, ?_⟩
  rcases hll with h9 | h10
  · rw [if_pos h9, Global.withDefaults, if_neg (logLevels_ne_nil _ h9)]
  · rw [if_neg fun h => logLevels_ne_nil _ h h10, if_pos h10, Global.withDefaults, if_pos h10]

/-! ## The backend `main` builds -/

/-- **An accepted configuration can leave `main` without a backend.** `main` builds no backend
for a configuration `verifyConfig` accepted exactly when its `Backend_Type` is neither empty,
`file` nor `ftp`; every backend it does build has what its constructor needs. -/
theorem verifyConfig_selectBackend {writableDir : List Char → Option (List Char)}
    {appendDefaultPort : List Char → List Char} {c c' : Global}
    (h : verifyConfig writableDir appendDefaultPort c = .ok c') :
    (selectBackend c' = none ↔ c.backendType ∉ [[], backendTypeFile, backendTypeFTP]) ∧
      ∀ b ∈ selectBackend c', b.Complete := by
  obtain ⟨ha, rfl⟩ := verifyConfig_ok_spec h
  have hsd := ha.storage.1
  unfold selectBackend Global.withDefaults
  dsimp only
  by_cases h0 : c.backendType = []
  · rw [if_pos h0]
    simp [h0, defaultBackendType, Backend.Complete, hsd]
  rw [if_neg h0]
  by_cases hf : c.backendType = backendTypeFile
  · rw [if_pos hf]
    simp [hf, Backend.Complete, hsd]
  rw [if_neg hf]
  by_cases hp : c.backendType = backendTypeFTP
  · rw [if_pos hp]
    simp [hp, Backend.Complete, hsd, ha.ftp hp]
  rw [if_neg hp]
  simp [h0, hf, hp]

/-- A configuration with `Backend-Type=FTP` and no FTP server passes `verifyConfig`, which takes
it for neither backend, and `main` builds no backend for it. -/
theorem verifyConfig_selectBackend_upper_ftp :
    ∃ c', verifyConfig (fun _ => none) id
      { listenAddress := "10.0.0.1:443".data, disableTLS := true, certFile := [], keyFile := [],
        passwordFile := "/opt/archive/passwd".data, logLevel := [], backendType := "FTP".data,
        storageDirectory := "/opt/archive/shards".data, ftpServer := [], remoteBaseDirectory := [],
        ftpUsername := [], ftpPassword := [] } = .ok c' ∧ selectBackend c' = none := by
  obtain ⟨c', hc⟩ : ∃ c', verifyConfig (fun _ => none) id
      { listenAddress := "10.0.0.1:443".data, disableTLS := true, certFile := [], keyFile := [],
        passwordFile := "/opt/archive/passwd".data, logLevel := [], backendType := "FTP".data,
        storageDirectory := "/opt/archive/shards".data, ftpServer := [], remoteBaseDirectory := [],
        ftpUsername := [], ftpPassword := [] } = .ok c' := ⟨_, rfl⟩
  exact ⟨c', hc, (verifyConfig_selectBackend hc).1.2 (by decide)⟩

end CloudArchive.Server
