import Sidecar.Lib.Base64
import Sidecar.Lib.Charset
import Sidecar.Main
import Sidecar.Registry

/-!
# Basic-auth credentials

The `Authorization` header of a request, from `http.rs`: the credentials are read from the files of
the command line or else of `REQ_USERNAME_FILE` and `REQ_PASSWORD_FILE`, and a file that cannot be
read leaves what `REQ_USERNAME` and `REQ_PASSWORD` say. They are written in Latin-1 under four names
of `REQ_BASIC_AUTH_ENCODING` and in UTF-8 under every other, so a server gets them back exactly when
the user name has no colon and its own character set reads these bytes as they were meant
(`basic_auth_received`). What is logged on the way does not depend on them
(`credentials_not_logged`).

The `base64` crate is a parameter. A request carries the header to the server and does nothing else
with it, so `request` leaves it out; the reads and log lines of making one are here.
-/

namespace Sidecar

open Posix StateM

/-! ## Reading -/

/-- `std::fs::read_to_string`. -/
def utf8Text (data : ByteArray) : Except ErrorKind String :=
  match String.fromUTF8? data with
  | some text => .ok text
  | none => .error .invalidData

/-- `errorText` is how an error is printed. -/
def readFileContent (env : Env) (errorText : ErrorKind → String) (path : String) :
    M (Option String) := do
  let data ← readFile env path
  match data.bind utf8Text with
  | .ok s => pure (some (Text.trim s))
  | .error .notFound => do
    log .warning s!"File not found at: {path}"
    pure none
  | .error .permissionDenied => do
    log .error s!"No read permission for file: {path}"
    pure none
  | .error e => do
    log .error s!"An unexpected error occurred: {errorText e}"
    pure none

/-- The content of a file that is named and can be read, or else the variable. -/
def fromFile (env : Env) (errorText : ErrorKind → String) (plain file : Option String) :
    M (Option String) :=
  match file with
  | none => pure plain
  | some f => do
    let content ← readFileContent env errorText f
    pure (content.or plain)

/-- A flag takes precedence over the variable that names a file. -/
def fetchBasicAuthCredentials (env : Env) (errorText : ErrorKind → String) (start : Start)
    (flags : Flags) :
    M (Option String × Option String) := do
  let username ← fromFile env errorText (start.env "REQ_USERNAME")
    (flags.usernameFile.or (start.env "REQ_USERNAME_FILE"))
  let password ← fromFile env errorText (start.env "REQ_PASSWORD")
    (flags.passwordFile.or (start.env "REQ_PASSWORD_FILE"))
  pure (username, password)

/-! ## Writing -/

/-- No other character than the letters of these names has one of them as its lower case. -/
def isLatin1 (encoding : String) : Bool :=
  encoding.toLower ∈ ["latin1", "latin-1", "iso-8859-1", "ascii"]

/-- What a single-byte encoding cannot write becomes a question mark. -/
def encodeCred (s encoding : String) : List UInt8 :=
  if isLatin1 encoding then s.toList.map fun ch => if ch.toNat ≤ 0xFF
    then UInt8.ofNat ch.toNat else 63
  else s.toByteArray.data.toList

def basicAuthEncoding (start : Start) : String :=
  (start.env "REQ_BASIC_AUTH_ENCODING").getD "latin1"

/-- `base64` is the encoding of `base64::engine::general_purpose::STANDARD`. -/
def basicAuthHeader (base64 : List UInt8 → String) (env : Env) (errorText : ErrorKind → String)
    (start : Start) (flags : Flags) : M (Option String) := do
  let (user, pass) ← fetchBasicAuthCredentials env errorText start flags
  match user, pass with
  | some user, some pass =>
    if user = "" ∨ pass = "" then pure none
    else
      let raw :=
        encodeCred user (basicAuthEncoding start) ++ 58 :: encodeCred pass (basicAuthEncoding start)
      pure (some ("Basic " ++ base64 raw))
  | _, _ => pure none

/-! ## What the server reads -/

/-- The character set that credentials are written in. -/
def writtenCharset (encoding : String) : Charset := if isLatin1 encoding then .latin1 else .utf8

theorem encodeCred_eq (s encoding : String) :
    encodeCred s encoding = (writtenCharset encoding).encode s := by
  unfold encodeCred writtenCharset
  split <;> rfl

theorem writtenCharset_marks (encoding : String) : (writtenCharset encoding).Marks ':' 58 := by
  unfold writtenCharset
  split
  · exact Charset.latin1_marks (by decide) (by decide)
  · exact Charset.utf8_marks (by decide)

/-- A server with the character set `cs` reads the credential as it was meant. -/
def Understood (cs : Charset) (encoding s : String) : Prop :=
  cs.decode (encodeCred s encoding) = some s

theorem understood_latin1 {encoding : String} (h : isLatin1 encoding = true) (s : String) :
    Understood .latin1 encoding s ↔ ∀ c ∈ s.toList, c.toNat ≤ 0xFF := by
  unfold Understood
  rw [encodeCred_eq, writtenCharset, if_pos h]
  exact Charset.latin1_faithful

theorem understood_utf8 {encoding : String} (h : isLatin1 encoding = false) (s : String) :
    Understood .utf8 encoding s := by
  unfold Understood
  rw [encodeCred_eq, writtenCharset, if_neg (by simp [h])]
  exact Charset.utf8_faithful s

section Received

variable (decode64 : String → Option (List UInt8)) (cs : Charset)

/-- The user and the password that a server finds in a header, up to the first colon and after
it. -/
def received (header : String) : Option (String × String) := do
  let text ← Text.stripPrefix header "Basic "
  let raw ← decode64 text
  cs.split 58 raw

variable {decode64 cs} {base64 : List UInt8 → String}
  (h64 : ∀ bytes, decode64 (base64 bytes) = some bytes)
include h64

/-- The server has to take a colon for a colon. -/
theorem received_header (hmark : cs.Marks ':' 58) (encoding user pass : String) :
    received decode64 cs
      ("Basic " ++ base64 (encodeCred user encoding ++ 58 :: encodeCred pass encoding)) =
        some (user, pass) ↔
      ':' ∉ user.toList ∧ Understood cs encoding user ∧ Understood cs encoding pass := by
  rw [received, Text.stripPrefix_append, Option.bind_eq_bind, Option.bind_some, h64,
    Option.bind_eq_bind, Option.bind_some]
  refine Charset.split_iff hmark ?_
  rw [encodeCred_eq]
  exact writtenCharset_marks encoding user

end Received

/-- The encoder and the reader of the library. -/
def sampleBase64 (bytes : List UInt8) : String := String.ofList (Base64.encode bytes)

def sampleDecode64 (text : String) : Option (List UInt8) := Base64.decode text.toList

theorem sampleDecode64_base64 (bytes : List UInt8) :
    sampleDecode64 (sampleBase64 bytes) = some bytes := by
  unfold sampleDecode64 sampleBase64
  rw [String.toList_ofList, Base64.decode_encode]

example : received sampleDecode64 .latin1 "Basic YTpiOmM=" = some ("a", "b:c") := by decide +kernel

/-- **What the server gets.** There is no header exactly when a credential is missing or empty, and
a server reads the credentials from it exactly when the user name has no colon and it understands
both: one that reads Latin-1 under a name of Latin-1 when they are in Latin-1, and one that reads
UTF-8 always under another name. -/
theorem basic_auth_received {base64 : List UInt8 → String} {decode64 : String → Option (List UInt8)}
    (h64 : ∀ bytes, decode64 (base64 bytes) = some bytes) (env : Env)
    (errorText : ErrorKind → String) (start : Start) (flags : Flags) (s : Sys) :
    let creds := (fetchBasicAuthCredentials env errorText start flags s).1
    let encoding := basicAuthEncoding start
    match (basicAuthHeader base64 env errorText start flags s).1 with
    | none => creds.1.getD "" = "" ∨ creds.2.getD "" = ""
    | some header => ∃ user pass, creds = (some user, some pass) ∧ user ≠ "" ∧ pass ≠ "" ∧
      (∀ cs : Charset, cs.Marks ':' 58 → (received decode64 cs header = some (user, pass) ↔
        ':' ∉ user.toList ∧ Understood cs encoding user ∧ Understood cs encoding pass)) ∧
      (isLatin1 encoding = true → (received decode64 .latin1 header = some (user, pass) ↔
        ':' ∉ user.toList ∧ (∀ c ∈ user.toList, c.toNat ≤ 0xFF) ∧ ∀ c ∈ pass.toList,
          c.toNat ≤ 0xFF)) ∧
      (isLatin1 encoding = false →
        (received decode64 .utf8 header = some (user, pass) ↔ ':' ∉ user.toList)) := by
  unfold basicAuthHeader
  simp only [bind_apply]
  generalize fetchBasicAuthCredentials env errorText start flags s = out
  obtain ⟨⟨user, pass⟩, s'⟩ := out
  rcases user with _ | user
  · exact .inl rfl
  rcases pass with _ | pass
  · exact .inr rfl
  dsimp only
  by_cases hempty : user = "" ∨ pass = ""
  · rw [if_pos hempty]
    exact hempty
  · rw [if_neg hempty]
    obtain ⟨huser, hpass⟩ := not_or.1 hempty
    refine ⟨user, pass, rfl, huser, hpass, fun cs hmark => received_header h64 hmark _ _ _,
      fun hlatin => ?_, fun hother => ?_⟩
    · refine (received_header h64 (Charset.latin1_marks (by decide) (by decide)) _ _ _).trans ?_
      rw [understood_latin1 hlatin, understood_latin1 hlatin]
    · refine (received_header h64 (Charset.utf8_marks (by decide)) _ _ _).trans ?_
      exact and_iff_left ⟨understood_utf8 hother user, understood_utf8 hother pass⟩

/-- A start with a password, and with a user name in the file of a flag. -/
def sampleSecret (password : String) : Start where
  args := []
  env name := if name = "REQ_PASSWORD" then some password else none
  loggerInit := .ok ()
  healthListener := .ok ()
  initClient := .ok ()
  serverVersion := .error ()
  saNamespace := .ok "ns"
  fromJson := some
  toJson := id

def sampleUserFile (user : String) : Sys :=
  { sampleWorld.sys with tree := sampleWorld.sys.tree.setFile ["user"] user.toUTF8 0o600 }

/-- The password may have a colon. -/
theorem basic_auth_received_sample :
    received sampleDecode64 .latin1 "Basic YWxpY2U6YTpi" = some ("alice", "a:b") := by
  have h := basic_auth_received sampleDecode64_base64 sampleEnv (fun _ => "") (sampleSecret "a:b")
    ⟨some "/user", none⟩ (sampleUserFile "alice")
  have hheader : (basicAuthHeader sampleBase64 sampleEnv (fun _ => "") (sampleSecret "a:b")
      ⟨some "/user", none⟩ (sampleUserFile "alice")).1 = some "Basic YWxpY2U6YTpi" := by
      decide +kernel
  rw [hheader] at h
  obtain ⟨user, pass, hcreds, -, -, -, hlatin, -⟩ := h
  have hread :
      (fetchBasicAuthCredentials sampleEnv (fun _ => "") (sampleSecret "a:b") ⟨some "/user", none⟩
      (sampleUserFile "alice")).1 = (some "alice", some "a:b") := by decide +kernel
  rw [hread] at hcreds
  cases hcreds
  exact (hlatin (by decide +kernel)).2 ⟨by decide, by simp, by simp⟩

/-! ## What is logged -/

/-- How a read ends: whether the file is text, not which. -/
def ending (read : Except ErrorKind ByteArray) : Except ErrorKind Bool :=
  read.map fun data => (String.fromUTF8? data).isSome

/-- What is seen of a node from outside: the mode of a file, and whether it is text. -/
def nodeShape : Node → Option (UInt32 × Bool)
  | .dir => none
  | .file data mode => some (mode, (String.fromUTF8? data).isSome)

/-- Two states in which the same was logged and the same files can be read, with whatever text in
them. -/
structure SameLog (env : Env) (s s' : Sys) : Prop where
  trace : s.trace = s'.trace
  ioTick : s.ioTick = s'.ioTick
  files : ∀ path, ending (s.tree.readFile env.proc path) = ending (s'.tree.readFile env.proc path)

section SameLog

variable {env : Env} {s s' : Sys}

theorem resolveFrom_shape {t t' : FileTree}
    (h : ∀ p, (t.node p).map nodeShape = (t'.node p).map nodeShape)
    (p : Path) (cs : List String) : t.resolveFrom p cs = t'.resolveFrom p cs := by
  induction cs generalizing p with
  | nil => rfl
  | cons c cs ih =>
    have hp := h p
    unfold FileTree.resolveFrom
    cases hnode : t.node p with
    | none =>
      rw [hnode] at hp
      rw [Option.map_eq_none_iff.1 hp.symm]
    | some n =>
      rw [hnode] at hp
      obtain ⟨n', hnode', hshape⟩ := Option.map_eq_some_iff.1 hp.symm
      rw [hnode']
      cases n <;> cases n' <;> first | cases hshape | skip
      · exact ih _
      · rfl

/-- Trees that differ in texts only. -/
theorem SameLog.of_shape (htrace : s.trace = s'.trace) (htick : s.ioTick = s'.ioTick)
    (h : ∀ p, (s.tree.node p).map nodeShape = (s'.tree.node p).map nodeShape) :
    SameLog env s s' := by
  refine ⟨htrace, htick, fun path => ?_⟩
  have hresolve : s.tree.resolve env.proc path = s'.tree.resolve env.proc path := by
    unfold FileTree.resolve
    rw [resolveFrom_shape h]
  unfold FileTree.readFile
  rw [hresolve]
  cases s'.tree.resolve env.proc path with
  | error e => rfl
  | ok p =>
    have hp := h p
    dsimp only
    cases hnode : s.tree.node p with
    | none =>
      rw [hnode] at hp
      rw [Option.map_eq_none_iff.1 hp.symm]
    | some n =>
      rw [hnode] at hp
      obtain ⟨n', hnode', hshape⟩ := Option.map_eq_some_iff.1 hp.symm
      rw [hnode']
      cases n <;> cases n' <;> first | cases hshape | skip
      · rfl
      · next data mode data' mode' =>
        obtain ⟨rfl, htext⟩ := Prod.mk.inj (Option.some.inj hshape)
        dsimp only
        split
        · exact congrArg Except.ok htext.symm
        · rfl

theorem SameLog.log (h : SameLog env s s') (level : Level) (msg : String) :
    SameLog env (log level msg s).2 (log level msg s').2 where
  trace := congrArg (· ++ [Event.log level msg]) h.trace
  ioTick := h.ioTick
  files := h.files

/-- The error of a read that ends like another one, and whether it gave text. -/
theorem ending_cases {read read' : Except ErrorKind ByteArray} (h : ending read = ending read') :
    (∃ e, read = .error e ∧ read' = .error e) ∨
      ∃ data data', read = .ok data ∧ read' = .ok data' ∧
        (String.fromUTF8? data).isSome = (String.fromUTF8? data').isSome := by
  cases read with
  | error e =>
    cases read' with
    | error e' =>
      cases h
      exact .inl ⟨e, rfl, rfl⟩
    | ok data' => cases h
  | ok data =>
    cases read' with
    | error e' => cases h
    | ok data' => exact .inr ⟨data, data', rfl, rfl, Except.ok.inj h⟩

theorem readFile_same (h : SameLog env s s') (path : String) :
    SameLog env (readFile env path s).2 (readFile env path s').2 ∧
      ending (readFile env path s).1 = ending (readFile env path s').1 := by
  unfold readFile syscall
  dsimp only
  rw [← h.ioTick]
  cases env.fault s.ioTick with
  | some f =>
    exact ⟨⟨congrArg (· ++ [Event.ioError (.read path) f.kind true]) h.trace, rfl, h.files⟩, rfl⟩
  | none =>
    dsimp only
    obtain ⟨e, hread, hread'⟩ | ⟨data, data', hread, hread', htext⟩ := ending_cases (h.files path)
    · rw [hread, hread']
      exact ⟨⟨congrArg (· ++ [Event.ioError (.read path) e false]) h.trace, rfl, h.files⟩, rfl⟩
    · rw [hread, hread']
      exact ⟨⟨congrArg (· ++ []) h.trace, rfl, h.files⟩, congrArg Except.ok htext⟩

theorem readFileContent_same (h : SameLog env s s') (errorText : ErrorKind → String)
    (path : String) :
    SameLog env (readFileContent env errorText path s).2
      (readFileContent env errorText path s').2 := by
  obtain ⟨hsame, hending⟩ := readFile_same h path
  unfold readFileContent
  simp only [bind_apply]
  generalize readFile env path s = out at hsame hending
  generalize readFile env path s' = out' at hsame hending
  obtain ⟨read, t⟩ := out
  obtain ⟨read', t'⟩ := out'
  dsimp only at hsame hending ⊢
  obtain ⟨e, rfl, rfl⟩ | ⟨data, data', rfl, rfl, htext⟩ := ending_cases hending
  · cases e with
    | notFound => exact hsame.log _ _
    | permissionDenied => exact hsame.log _ _
    | alreadyExists => exact hsame.log _ _
    | notADirectory => exact hsame.log _ _
    | isADirectory => exact hsame.log _ _
    | invalidData => exact hsame.log _ _
    | other => exact hsame.log _ _
  · simp only [Except.bind, utf8Text]
    cases hdata : String.fromUTF8? data with
    | some text =>
      rw [hdata] at htext
      obtain ⟨text', htext'⟩ := Option.isSome_iff_exists.1 htext.symm
      rw [htext']
      exact hsame
    | none =>
      rw [hdata] at htext
      rw [Option.not_isSome_iff_eq_none.1 (Bool.eq_false_iff.1 htext.symm)]
      exact hsame.log _ _

theorem fromFile_same (h : SameLog env s s') (errorText : ErrorKind → String)
    (plain plain' file : Option String) :
    SameLog env (fromFile env errorText plain file s).2
      (fromFile env errorText plain' file s').2 := by
  cases file with
  | none => exact h
  | some f => exact readFileContent_same h errorText f

end SameLog

/-- The header is made from the credentials and logs nothing. -/
theorem basicAuthHeader_state (base64 : List UInt8 → String) (env : Env)
    (errorText : ErrorKind → String) (start : Start) (flags : Flags) (s : Sys) :
    (basicAuthHeader base64 env errorText start flags s).2 =
      (fetchBasicAuthCredentials env errorText start flags s).2 := by
  unfold basicAuthHeader
  simp only [bind_apply]
  generalize fetchBasicAuthCredentials env errorText start flags s = out
  obtain ⟨⟨user, pass⟩, s'⟩ := out
  rcases user with _ | user
  · rfl
  rcases pass with _ | pass
  · rfl
  dsimp only
  split <;> rfl

/-- **No credential is logged**: two starts that differ in `REQ_USERNAME`, in `REQ_PASSWORD` and in
what is in the files, but not in which files there are and can be read, log the same. -/
theorem credentials_not_logged (base64 : List UInt8 → String) (env : Env)
    (errorText : ErrorKind → String) {start start' : Start} (flags : Flags)
    (hvars : ∀ name, name ≠ "REQ_USERNAME" → name ≠ "REQ_PASSWORD" →
      start.env name = start'.env name) {s s' : Sys}
    (h : SameLog env s s') :
    (basicAuthHeader base64 env errorText start flags s).2.trace =
      (basicAuthHeader base64 env errorText start' flags s').2.trace := by
  rw [basicAuthHeader_state, basicAuthHeader_state]
  have huser : start.env "REQ_USERNAME_FILE" = start'.env "REQ_USERNAME_FILE" :=
    hvars _ (by decide) (by decide)
  have hpass : start.env "REQ_PASSWORD_FILE" = start'.env "REQ_PASSWORD_FILE" :=
    hvars _ (by decide) (by decide)
  unfold fetchBasicAuthCredentials
  simp only [bind_apply, huser, hpass]
  exact (fromFile_same (fromFile_same h errorText _ _ _) errorText _ _ _).trace

/-- Two passwords and two users, with a header for each. -/
theorem credentials_not_logged_sample :
    let made user password := basicAuthHeader sampleBase64 sampleEnv (fun _ => "")
      (sampleSecret password) ⟨some "/user", none⟩ (sampleUserFile user)
    (made "alice" "a").1 = some "Basic YWxpY2U6YQ==" ∧ (made "bob" "b").1 = some "Basic Ym9iOmI=" ∧
      (made "alice" "a").2.trace = (made "bob" "b").2.trace := by
  refine ⟨by decide +kernel, by decide +kernel, ?_⟩
  refine credentials_not_logged sampleBase64 sampleEnv _ _ (fun name _ hname => ?_)
    (.of_shape rfl rfl fun p => ?_)
  · unfold sampleSecret
    dsimp only
    rw [if_neg hname, if_neg hname]
  · by_cases hp : p = ["user"]
    · subst hp
      decide +kernel
    · simp [sampleUserFile, sampleWorld, FileTree.setFile, FileTree.empty, hp]

end Sidecar
