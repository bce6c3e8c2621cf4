import ArgusBackend.Library.Vectors

/-!
# The server name of a client hello

The router reads the first bytes of a connection, which should be the client hello of a TLS
handshake, to find out for which home it is.  It does so again whenever more of them have arrived.

* `parseClientHello` : the code, whose reader checks nothing by itself;
* `recordResult` : the same with a check in front of every read.  The code never reads past the
  bytes, and it finds this (`parseClientHello_eq`);
* `ClientHello` : a client hello in one record, and the bytes of it;
* `client_hello_exact` : the code comes to an end, does not change its mind when more bytes arrive,
  and finds the server name.
-/

namespace ArgusBackend

namespace Link

open Vectors

/-- The type of a record of a handshake. -/
def kHandshakeRecord : UInt32 := 0x16

/-- The type of the client's hello. -/
def kClientHelloMessage : UInt32 := 0x01

/-- The extension that has the name of the server. -/
def kServerNameExtension : UInt32 := 0x0000

/-- The type of a host name. -/
def kHostNameType : UInt32 := 0x00

/-- The bytes before a record. -/
def kRecordHeader : ℕ := 5

/-- The bytes before a message of the handshake. -/
def kHandshakeHeader : ℕ := 4

/-- The bytes of the version and of the random. -/
def kVersionAndRandom : ℕ := 34

/-- The bytes before an extension. -/
def kExtensionHeader : ℕ := 4

/-- The bytes before a name. -/
def kServerNameEntryHeader : ℕ := 3

/-- Whether the hello is whole, and right. -/
inductive ClientHelloStatus where
  | needMore | parsed | malformed
  deriving DecidableEq

/-- What the parser answers. -/
structure ClientHelloResult where
  status : ClientHelloStatus := .needMore
  serverName : Bytes := []
  deriving DecidableEq

/-- No hello. -/
def malformedHello : ClientHelloResult := { status := .malformed }

/-! ### The reader

It is the bytes that are left.  A read gives none past their end. -/

namespace Reader

/-- So many bytes are left. -/
def has (r : Bytes) (count : ℕ) : Prop := count ≤ r.length

instance (r : Bytes) (count : ℕ) : Decidable (has r count) := inferInstanceAs (Decidable (_ ≤ _))

/-- The next byte. -/
def byte : Bytes → Option (UInt32 × Bytes)
  | [] => none
  | value :: r => some (value.toUInt32, r)

/-- The next two bytes, the high one first. -/
def twoBytes (r : Bytes) : Option (UInt32 × Bytes) := do
  let (high, r) ← byte r
  let (low, r) ← byte r
  return (high <<< 8 ||| low, r)

/-- The next three bytes, the high one first. -/
def threeBytes (r : Bytes) : Option (UInt32 × Bytes) := do
  let (high, r) ← twoBytes r
  let (low, r) ← byte r
  return (high <<< 8 ||| low, r)

/-- The part, and the reader behind it. -/
def take (r : Bytes) (count : ℕ) : Bytes × Bytes := (r.take count, r.drop count)

/-- None where the answer is false. -/
def skip (r : Bytes) (count : ℕ) : Option Bytes := if has r count then some (r.drop count) else none

/-- `has(size)` and `skip` of the number that is read then; the inner none is where one of them is
false. -/
def skipVector (size : ℕ) (read : Bytes → Option (UInt32 × Bytes)) (r : Bytes) :
    Option (Option Bytes) :=
  if ¬has r size then some none
  else do
    let (count, r) ← read r
    return skip r count.toNat

end Reader

open Reader

/-! ### The parser -/

/-- The loop of `hostNameIn`, with so much fuel. -/
def hostNameFrom : ℕ → Bytes → Bytes → Option (Option Bytes)
  | 0, _, _ => none
  | fuel + 1, list, hostName =>
    if ¬has list kServerNameEntryHeader then some (some hostName)
    else do
      let (type, list) ← byte list
      let (length, list) ← twoBytes list
      if ¬has list length.toNat then return none
      let (name, list) := take list length.toNat
      hostNameFrom fuel list (if type = kHostNameType ∧ hostName = [] then name else hostName)

/-- The inner none is `nullopt`. -/
def hostNameIn (extension : Bytes) : Option (Option Bytes) :=
  if ¬has extension 2 then some none
  else do
    let (listLength, reader) ← twoBytes extension
    if ¬has reader listLength.toNat then return none
    let (list, _) := take reader listLength.toNat
    hostNameFrom (list.length + 1) list []

/-- The loop of `parseClientHello` over the extensions, with so much fuel. -/
def serverNameFrom : ℕ → Bytes → Bytes → Option ClientHelloResult
  | 0, _, _ => none
  | fuel + 1, extensions, serverName =>
    if ¬has extensions kExtensionHeader then some { status := .parsed, serverName }
    else do
      let (type, extensions) ← twoBytes extensions
      let (length, extensions) ← twoBytes extensions
      if ¬has extensions length.toNat then return malformedHello
      let (data, extensions) := take extensions length.toNat
      if type ≠ kServerNameExtension then serverNameFrom fuel extensions serverName
      else
        match ← hostNameIn data with
        | none => return malformedHello
        | some name =>
          serverNameFrom fuel extensions (if serverName = [] then name else serverName)

/-- What `parseClientHello` does with the message. -/
def parseHello (hello : Bytes) : Option ClientHelloResult := do
  let some hello := skip hello kVersionAndRandom | return malformedHello
  let some hello ← skipVector 1 byte hello | return malformedHello
  let some hello ← skipVector 2 twoBytes hello | return malformedHello
  let some hello ← skipVector 1 byte hello | return malformedHello
  if hello.length = 0 then return { status := .parsed }
  if ¬has hello 2 then return malformedHello
  let (extensionsLength, hello) ← twoBytes hello
  if ¬has hello extensionsLength.toNat then return malformedHello
  let (extensions, _) := take hello extensionsLength.toNat
  serverNameFrom (extensions.length + 1) extensions []

/-- What it does with the record. -/
def parseHandshake (handshake : Bytes) : Option ClientHelloResult := do
  let (message, handshake) ← byte handshake
  if message ≠ kClientHelloMessage then return malformedHello
  let (messageLength, handshake) ← threeBytes handshake
  if ¬has handshake messageLength.toNat then return malformedHello
  let (hello, _) := take handshake messageLength.toNat
  parseHello hello

/-- `parseClientHello`, which never looks past the first record. -/
def parseClientHello (bytes : Bytes) : Option ClientHelloResult := do
  if bytes.length < kRecordHeader then return {}
  let (first, record) ← byte bytes
  if first ≠ kHandshakeRecord then return malformedHello
  let record := (skip record 2).getD record
  let (recordLength, record) ← twoBytes record
  if recordLength.toNat < kHandshakeHeader then return malformedHello
  if ¬has record recordLength.toNat then return {}
  let (handshake, _) := take record recordLength.toNat
  parseHandshake handshake

/-! ### The checked reader -/

/-- The first host name of the list is kept. -/
def keepHostName (hostName : Bytes) : ℕ × Bytes → Bytes
  | (type, name) => if type = 0 ∧ hostName = [] then name else hostName

/-- The host name in the data of the extension. -/
def hostNameOf (data : Bytes) : Option Bytes :=
  (vector 2 data).bind fun (list, _) =>
    ((tagged 1 2 Nat.one_pos).all list).map (List.foldl keepHostName [])

/-- The first host name of the extensions is kept. -/
def keepServerName (serverName : Bytes) : ℕ × Bytes → Option Bytes
  | (type, data) =>
    if type ≠ 0 then some serverName
    else (hostNameOf data).map fun name => if serverName = [] then name else serverName

/-- The server name in a message, unless it is malformed. -/
def serverNameOf (hello : Bytes) : Option Bytes := do
  let (_, hello) ← part 34 hello
  let (_, hello) ← vector 1 hello
  let (_, hello) ← vector 2 hello
  let (_, hello) ← vector 1 hello
  if hello = [] then some []
  else
    let (extensions, _) ← vector 2 hello
    let extensions ← (tagged 2 2 Nat.two_pos).all extensions
    extensions.foldlM keepServerName []

/-- The host name of a handshake that is the client's hello. -/
def handshakeName (handshake : Bytes) : Option Bytes := do
  let (message, handshake) ← number 1 handshake
  if message ≠ 1 then none
  else
    let (hello, _) ← vector 3 handshake
    serverNameOf hello

/-- What the parser answers for what the grammar says. -/
def outcome : Option Bytes → ClientHelloResult
  | none => malformedHello
  | some serverName => { status := .parsed, serverName }

/-- What the parser finds in a record that may not be there as a whole. -/
def recordResult : Bytes → ClientHelloResult
  | first :: _ :: _ :: record =>
    match number 2 record with
    | none => {}
    | some (length, record) =>
      if first ≠ 0x16 ∨ length < 4 then malformedHello
      else if record.length < length then {}
      else outcome (handshakeName (record.take length))
  | _ => {}

section Reads

variable {r rest list extensions hostName serverName : Bytes} {k n fuel : ℕ}
  {read : Bytes → Option (UInt32 × Bytes)}

/-- `read` reads a number of `k` bytes, where there are so many. -/
def ReadsNumber (k : ℕ) (read : Bytes → Option (UInt32 × Bytes)) : Prop :=
  ∀ {r n rest}, number k r = some (n, rest) →
    ∃ value, read r = some (value, rest) ∧ value.toNat = n

lemma readsNumber_byte : ReadsNumber 1 byte := by
  intro r n rest h
  cases r with
  | nil => cases h
  | cons value r =>
    cases h
    exact ⟨value.toUInt32, rfl, by simp [leNat]⟩

/-- A longer number is read byte by byte. -/
lemma ReadsNumber.succ (h : ReadsNumber k read) (hk : k ≤ 3) :
    ReadsNumber (k + 1) fun r => do
      let (high, r) ← read r
      let (low, r) ← byte r
      return (high <<< 8 ||| low, r) := by
  intro r n rest hnumber
  obtain ⟨high, low, hhigh, rfl⟩ := number_succ hnumber
  obtain ⟨value, hread, rfl⟩ := h hhigh
  refine ⟨value <<< 8 ||| low.toUInt32, ?_, ?_⟩
  · dsimp only
    rw [hread]
    rfl
  · have hlow := low.toNat_lt
    have hlt := (number_lt hhigh).trans_le (Nat.pow_le_pow_right (by decide) hk)
    rw [UInt32.or_comm, UInt32.toNat_or_shiftLeft (i := 8) rfl (by decide) (by simpa using hlow)
      (by omega), UInt8.toNat_toUInt32]
    omega

lemma readsNumber_twoBytes : ReadsNumber 2 twoBytes := readsNumber_byte.succ (by decide)

lemma readsNumber_threeBytes : ReadsNumber 3 threeBytes := readsNumber_twoBytes.succ (by decide)

lemma skip_eq (r : Bytes) (n : ℕ) : skip r n = (part n r).map Prod.snd := by
  by_cases h : has r n
  · rw [skip, if_pos h, part_of_le h, Option.map_some]
  · rw [skip, if_neg h, part_of_lt (not_le.1 h), Option.map_none]

lemma skipVector_eq (h : ReadsNumber k read) (r : Bytes) :
    skipVector k read r = some ((vector k r).map Prod.snd) := by
  by_cases hk : has r k
  · obtain ⟨n, rest, hnumber⟩ := number_of_le hk
    obtain ⟨value, hread, rfl⟩ := h hnumber
    rw [skipVector, if_neg (not_not.2 hk), hread, vector_of_number hnumber]
    exact congrArg some (skip_eq _ _)
  · rw [skipVector, if_pos hk, vector_of_lt (not_le.1 hk), Option.map_none]

lemma toNat_eq {value word : UInt32} (h : word.toNat = n) : value.toNat = n ↔ value = word := by
  rw [← UInt32.toNat_inj, h]

/-- A vector is taken after two checks, one for its length and one for its bytes. -/
lemma takeVector_eq {α : Type} (h : ReadsNumber k read) (refused : α) (next : Bytes → Option α)
    (r : Bytes) : (if ¬has r k then some refused
      else (read r).bind fun (count, r) =>
        if ¬has r count.toNat then some refused else next (Reader.take r count.toNat).1) =
      (vector k r).elim (some refused) fun (data, _) => next data := by
  by_cases hk : has r k
  · obtain ⟨n, rest, hnumber⟩ := number_of_le hk
    obtain ⟨count, hread, rfl⟩ := h hnumber
    rw [if_neg (not_not.2 hk), hread, vector_of_number hnumber, Option.bind_some]
    by_cases hcount : has rest count.toNat
    · rw [part_of_le hcount]
      exact if_neg (not_not.2 hcount)
    · rw [part_of_lt (not_le.1 hcount)]
      exact if_pos hcount
  · rw [if_pos hk, vector_of_lt (not_le.1 hk), Option.elim_none]

/-- The loop reads all the names, and never past their end. -/
lemma hostNameFrom_eq (hfuel : list.length < fuel) :
    hostNameFrom fuel list hostName =
      some (((tagged 1 2 Nat.one_pos).all list).map (List.foldl keepHostName hostName)) := by
  induction fuel generalizing list hostName with
  | zero => exact absurd hfuel (Nat.not_lt_zero _)
  | succ fuel ih =>
    rw [hostNameFrom]
    by_cases hheader : has list kServerNameEntryHeader
    · obtain ⟨type, behind, length, rest, htype, hlength, hshorter, hall⟩ :=
        tagged_all_of_le Nat.one_pos (show 1 + 2 ≤ list.length from hheader)
      obtain ⟨type, hread, rfl⟩ := readsNumber_byte htype
      obtain ⟨length, hread', rfl⟩ := readsNumber_twoBytes hlength
      rw [if_neg (not_not.2 hheader), hread, hall]
      simp only [Option.bind_eq_bind, Option.bind_some, hread']
      by_cases hname : has rest length.toNat
      · rw [if_neg (not_not.2 hname), part_of_le hname, Option.bind_some]
        have hleft : (rest.drop length.toNat).length < fuel := by
          rw [List.length_drop]
          omega
        have hkeep : keepHostName hostName (type.toNat, rest.take length.toNat) =
            if type = kHostNameType ∧ hostName = [] then rest.take length.toNat else hostName :=
          if_congr (and_congr_left' (toNat_eq rfl)) rfl rfl
        unfold Reader.take
        rw [ih hleft, Option.map_map, ← hkeep]
        rfl
      · rw [if_pos hname, part_of_lt (not_le.1 hname)]
        rfl
    · rw [if_pos hheader, tagged_all_of_lt (not_le.1 hheader)]
      rfl

lemma hostNameIn_eq (data : Bytes) : hostNameIn data = some (hostNameOf data) := by
  refine (takeVector_eq readsNumber_twoBytes none
    (fun list => hostNameFrom (list.length + 1) list []) data).trans ?_
  unfold hostNameOf
  cases vector 2 data with
  | none => rfl
  | some list => exact hostNameFrom_eq (Nat.lt_succ_self _)

/-- An extension comes before those behind it. -/
lemma foldlM_cons {α β : Type} (f : β → α → Option β) (b : β) (a : α) (items : Option (List α)) :
    (items.map (a :: ·)).bind (List.foldlM f b) =
      (f b a).bind fun b => items.bind (List.foldlM f b) := by
  cases items with
  | none => cases f b a <;> rfl
  | some items => rw [Option.map_some, Option.bind_some, List.foldlM_cons]; rfl

/-- The loop reads all the extensions. -/
lemma serverNameFrom_eq (hfuel : extensions.length < fuel) :
    serverNameFrom fuel extensions serverName =
      some (outcome (((tagged 2 2 Nat.two_pos).all extensions).bind
        (List.foldlM keepServerName serverName))) := by
  induction fuel generalizing extensions serverName with
  | zero => exact absurd hfuel (Nat.not_lt_zero _)
  | succ fuel ih =>
    rw [serverNameFrom]
    by_cases hheader : has extensions kExtensionHeader
    · obtain ⟨type, behind, length, rest, htype, hlength, hshorter, hall⟩ :=
        tagged_all_of_le Nat.two_pos (show 2 + 2 ≤ extensions.length from hheader)
      obtain ⟨type, hread, rfl⟩ := readsNumber_twoBytes htype
      obtain ⟨length, hread', rfl⟩ := readsNumber_twoBytes hlength
      rw [if_neg (not_not.2 hheader), hread, hall]
      simp only [Option.bind_eq_bind, Option.bind_some, hread']
      by_cases hdata : has rest length.toNat
      · rw [if_neg (not_not.2 hdata), part_of_le hdata, Option.bind_some]
        have hleft : (rest.drop length.toNat).length < fuel := by
          rw [List.length_drop]
          omega
        unfold Reader.take
        dsimp only
        rw [foldlM_cons, keepServerName]
        have hzero : type.toNat = 0 ↔ type = kServerNameExtension := toNat_eq rfl
        by_cases hname : type = kServerNameExtension
        · rw [if_neg (not_not.2 hname), if_neg (not_not.2 (hzero.2 hname)), hostNameIn_eq,
            Option.bind_some]
          cases hostNameOf (rest.take length.toNat) with
          | none => rfl
          | some name => exact ih hleft
        · rw [if_pos hname, if_pos (mt hzero.1 hname)]
          exact ih hleft
      · rw [if_pos hdata, part_of_lt (not_le.1 hdata)]
        rfl
    · rw [if_pos hheader, tagged_all_of_lt (not_le.1 hheader)]
      rfl

/-- The parser reads the message, and never past its end. -/
lemma parseHello_eq (hello : Bytes) : parseHello hello = some (outcome (serverNameOf hello)) := by
  unfold parseHello serverNameOf
  rw [skip_eq, kVersionAndRandom]
  cases part 34 hello with
  | none => rfl
  | some version =>
    simp only [Option.map_some, Option.bind_eq_bind, Option.bind_some,
      skipVector_eq readsNumber_byte]
    cases vector 1 version.2 with
    | none => rfl
    | some sessionId =>
      simp only [Option.map_some, Option.bind_some, skipVector_eq readsNumber_twoBytes]
      cases vector 2 sessionId.2 with
      | none => rfl
      | some cipherSuites =>
        simp only [Option.map_some, Option.bind_some]
        cases vector 1 cipherSuites.2 with
        | none => rfl
        | some compressionMethods =>
          simp only [Option.map_some, Option.bind_some, List.length_eq_zero_iff]
          by_cases hend : compressionMethods.2 = []
          · rw [if_pos hend, if_pos hend]
            rfl
          rw [if_neg hend, if_neg hend]
          refine (takeVector_eq readsNumber_twoBytes malformedHello
            (fun list => serverNameFrom (list.length + 1) list []) compressionMethods.2).trans ?_
          cases vector 2 compressionMethods.2 with
          | none => rfl
          | some extensions => exact serverNameFrom_eq (Nat.lt_succ_self _)

lemma parseHandshake_eq {handshake : Bytes} (h : kHandshakeHeader ≤ handshake.length) :
    parseHandshake handshake = some (outcome (handshakeName handshake)) := by
  unfold kHandshakeHeader at h
  obtain ⟨message, behind, hnumber⟩ := number_of_le (show 1 ≤ handshake.length by omega)
  have hbehind := length_of_number hnumber
  obtain ⟨length, rest, hlength⟩ := number_of_le (show 3 ≤ behind.length by omega)
  obtain ⟨message, hmessage, rfl⟩ := readsNumber_byte hnumber
  obtain ⟨length, hread, rfl⟩ := readsNumber_threeBytes hlength
  have hone : message.toNat = 1 ↔ message = kClientHelloMessage := toNat_eq rfl
  unfold parseHandshake handshakeName
  simp only [hmessage, hread, hnumber, Option.bind_eq_bind, Option.bind_some]
  by_cases hclient : message = kClientHelloMessage
  · rw [if_neg (not_not.2 hclient), if_neg (not_not.2 (hone.2 hclient)), vector_of_number hlength]
    by_cases hhello : has rest length.toNat
    · rw [if_neg (not_not.2 hhello), part_of_le hhello]
      exact parseHello_eq _
    · rw [if_pos hhello, part_of_lt (not_le.1 hhello)]
      rfl
  · rw [if_pos hclient, if_pos (mt hone.1 hclient)]
    rfl

lemma recordResult_of_lt {record : Bytes} (h : record.length < 2) (first major minor : UInt8) :
    recordResult (first :: major :: minor :: record) = {} := by
  rw [recordResult, number_of_lt h]

lemma recordResult_of_number {record : Bytes} (h : number 2 record = some (n, rest))
    (first major minor : UInt8) : recordResult (first :: major :: minor :: record) =
      if first ≠ 0x16 ∨ n < 4 then malformedHello
      else if rest.length < n then {}
      else outcome (handshakeName (rest.take n)) := by
  rw [recordResult, h]

/-- **The code is the checked reader**, so that it never reads past the bytes. -/
theorem parseClientHello_eq (bytes : Bytes) :
    parseClientHello bytes = some (recordResult bytes) := by
  match bytes with
  | [] | [_] | [_, _] => rfl
  | first :: major :: minor :: record =>
    unfold parseClientHello
    by_cases hsize : 2 ≤ record.length
    · obtain ⟨length, rest, hlength⟩ := number_of_le hsize
      have hfive : ¬(first :: major :: minor :: record).length < kRecordHeader := by
        simp only [List.length_cons, kRecordHeader]
        omega
      have hskip : (skip (major :: minor :: record) 2).getD (major :: minor :: record) = record := by
        rw [skip, if_pos (show has _ 2 from Nat.le_add_left 2 _)]
        rfl
      obtain ⟨length, hread, rfl⟩ := readsNumber_twoBytes hlength
      have hrecord : first.toUInt32 = kHandshakeRecord ↔ first = 0x16 :=
        UInt8.toUInt32_inj (b := 0x16)
      rw [if_neg hfive, recordResult_of_number hlength]
      simp only [byte, Option.bind_eq_bind, Option.bind_some, hskip, hread]
      by_cases hfirst : first = 0x16
      · rw [if_neg (not_not.2 (hrecord.2 hfirst))]
        by_cases hhandshake : length.toNat < kHandshakeHeader
        · rw [if_pos hhandshake, if_pos (.inr hhandshake)]
          rfl
        · have hfine : ¬(first ≠ 0x16 ∨ length.toNat < 4) :=
            not_or.2 ⟨not_not.2 hfirst, hhandshake⟩
          rw [if_neg hhandshake, if_neg hfine]
          by_cases hwhole : has rest length.toNat
          · rw [if_neg (not_not.2 hwhole), if_neg (not_lt.2 hwhole)]
            refine parseHandshake_eq ?_
            rw [Reader.take, List.length_take_of_le hwhole]
            exact not_lt.1 hhandshake
          · rw [if_pos hwhole, if_pos (not_le.1 hwhole)]
            rfl
      · rw [if_pos (mt hrecord.1 hfirst), if_pos (.inl hfirst)]
        rfl
    · have hshort : (first :: major :: minor :: record).length < kRecordHeader := by
        simp only [List.length_cons, kRecordHeader]
        omega
      rw [if_pos hshort, recordResult_of_lt (not_le.1 hsize)]
      rfl

end Reads

/-! ### Client hellos -/

/-- A name of the extension, of any type. -/
structure ServerName where
  type : UInt8
  name : Bytes
  fits : name.length < 256 ^ 2

namespace ServerName

/-- The bytes of a name. -/
def write (n : ServerName) : Bytes := taggedBytes 1 2 n.type.toNat n.name

/-- The name of a host, if this is one and it is not empty. -/
def hostName (n : ServerName) : Option Bytes :=
  if n.type.toNat = 0 ∧ n.name ≠ [] then some n.name else none

end ServerName

/-- An extension: the names of the server, or another one. -/
inductive Extension where
  | serverName (names : List ServerName)
      (fits : (names.flatMap ServerName.write).length + 2 < 256 ^ 2)
  | other (type : ℕ) (data : Bytes) (named : type ≠ 0) (known : type < 256 ^ 2)
      (fits : data.length < 256 ^ 2)

namespace Extension

/-- The type of an extension. -/
def type : Extension → ℕ
  | .serverName .. => 0
  | .other type .. => type

/-- The data of an extension. -/
def data : Extension → Bytes
  | .serverName names _ => vectorBytes 2 (names.flatMap ServerName.write)
  | .other _ data .. => data

/-- The bytes of an extension. -/
def write (e : Extension) : Bytes := taggedBytes 2 2 e.type e.data

/-- The first name of a host in a `server_name` extension. -/
def hostName : Extension → Option Bytes
  | .serverName names _ => names.findSome? ServerName.hostName
  | .other .. => none

end Extension

/-- A client hello; its lengths fit their fields. -/
structure HelloMessage where
  versionAndRandom : Bytes
  sessionId : Bytes
  cipherSuites : Bytes
  compressionMethods : Bytes
  extensions : Option (List Extension)
  length_versionAndRandom : versionAndRandom.length = 34
  sessionId_fits : sessionId.length < 256 ^ 1
  cipherSuites_fits : cipherSuites.length < 256 ^ 2
  compressionMethods_fits : compressionMethods.length < 256 ^ 1
  extensions_fit : ∀ list ∈ extensions, (list.flatMap Extension.write).length < 256 ^ 2

namespace HelloMessage

/-- The bytes of the extensions; a hello without any leaves their length out too. -/
def extensionBytes (m : HelloMessage) : Bytes :=
  match m.extensions with
  | none => []
  | some list => vectorBytes 2 (list.flatMap Extension.write)

/-- The bytes of a hello behind its header. -/
def body (m : HelloMessage) : Bytes :=
  m.versionAndRandom ++ (vectorBytes 1 m.sessionId ++ (vectorBytes 2 m.cipherSuites ++
    (vectorBytes 1 m.compressionMethods ++ m.extensionBytes)))

/-- The bytes of a hello. -/
def write (m : HelloMessage) : Bytes := numberBytes 1 1 ++ vectorBytes 3 m.body

lemma four_le_length (m : HelloMessage) : 4 ≤ m.write.length := by
  rw [write, List.length_append, length_numberBytes, length_vectorBytes]
  omega

/-- The first name of a host in the first extension that has one, or nothing. -/
def serverName (m : HelloMessage) : Bytes :=
  ((m.extensions.getD []).findSome? Extension.hostName).getD []

end HelloMessage

/-- A client hello in one record. -/
structure ClientHello where
  major : UInt8
  minor : UInt8
  message : HelloMessage
  fits : message.write.length < 256 ^ 2

namespace ClientHello

/-- The bytes of a record with a hello. -/
def record (h : ClientHello) : Bytes := 0x16 :: h.major :: h.minor :: vectorBytes 2 h.message.write

end ClientHello

section Written

variable {hostName serverName : Bytes}

lemma foldl_keepHostName (names : List ServerName) :
    (names.map fun n => (n.type.toNat, n.name)).foldl keepHostName hostName =
      if hostName = [] then (names.findSome? ServerName.hostName).getD [] else hostName := by
  induction names generalizing hostName with
  | nil => cases hostName <;> rfl
  | cons n names ih =>
    rw [List.map_cons, List.foldl_cons, ih, List.findSome?_cons]
    by_cases hfound : hostName = []
    · by_cases hhost : n.type.toNat = 0
      · by_cases hname : n.name = []
        · simp [keepHostName, ServerName.hostName, hfound, hname]
        · simp [keepHostName, ServerName.hostName, hfound, hhost, hname]
      · simp [keepHostName, ServerName.hostName, hfound, hhost]
    · simp [keepHostName, hfound]

lemma hostNameOf_write (names : List ServerName)
    (hfits : (names.flatMap ServerName.write).length + 2 < 256 ^ 2) :
    hostNameOf (vectorBytes 2 (names.flatMap ServerName.write)) =
      some ((names.findSome? ServerName.hostName).getD []) := by
  have hall : (tagged 1 2 Nat.one_pos).all (names.flatMap ServerName.write) =
      some (names.map fun n => (n.type.toNat, n.name)) :=
    tagged_all_write Nat.one_pos (fun n => n.type.toNat_lt) ServerName.fits names
  rw [hostNameOf, vector_vectorBytes_self (Nat.lt_of_add_right_lt hfits), Option.bind_some]
  dsimp only
  rw [hall, Option.map_some, foldl_keepHostName, if_pos rfl]

lemma Extension.fits (e : Extension) : e.type < 256 ^ 2 ∧ e.data.length < 256 ^ 2 := by
  cases e with
  | serverName names hfits =>
    refine ⟨Nat.pow_pos (by decide), ?_⟩
    rw [Extension.data, length_vectorBytes]
    omega
  | other type data hnamed hknown hfits => exact ⟨hknown, hfits⟩

lemma keepServerName_write (e : Extension) : keepServerName serverName (e.type, e.data) =
    some (if serverName = [] then e.hostName.getD [] else serverName) := by
  cases e with
  | serverName names hfits =>
    rw [keepServerName, Extension.type, if_neg (not_not.2 rfl), Extension.data,
      hostNameOf_write names hfits]
    rfl
  | other type data hnamed hknown hfits =>
    rw [keepServerName, Extension.type, if_pos hnamed]
    cases serverName <;> rfl

lemma Extension.hostName_ne_nil {e : Extension} {name : Bytes} (h : e.hostName = some name) :
    name ≠ [] := by
  cases e with
  | serverName names hfits =>
    obtain ⟨n, -, hn⟩ := List.exists_of_findSome?_eq_some h
    unfold ServerName.hostName at hn
    split_ifs at hn with hfound
    exact Option.some.inj hn ▸ hfound.2
  | other type data hnamed hknown hfits => cases h

lemma foldlM_keepServerName (list : List Extension) :
    (list.map fun e => (e.type, e.data)).foldlM keepServerName serverName =
      some (if serverName = [] then (list.findSome? Extension.hostName).getD []
        else serverName) := by
  induction list generalizing serverName with
  | nil => cases serverName <;> rfl
  | cons e list ih =>
    rw [List.map_cons, List.foldlM_cons, keepServerName_write, List.findSome?_cons]
    refine ih.trans (congrArg some ?_)
    by_cases hfound : serverName = []
    · cases hhost : e.hostName with
      | none => simp [hfound]
      | some name => simp [hfound, Extension.hostName_ne_nil hhost]
    · simp [hfound]

lemma serverNameOf_body (m : HelloMessage) : serverNameOf m.body = some m.serverName := by
  have hversion := part_append m.versionAndRandom (vectorBytes 1 m.sessionId ++
    (vectorBytes 2 m.cipherSuites ++ (vectorBytes 1 m.compressionMethods ++ m.extensionBytes)))
  rw [m.length_versionAndRandom] at hversion
  unfold serverNameOf HelloMessage.body
  simp only [hversion, vector_vectorBytes m.sessionId_fits, vector_vectorBytes m.cipherSuites_fits,
    vector_vectorBytes m.compressionMethods_fits, Option.bind_eq_bind, Option.bind_some]
  unfold HelloMessage.extensionBytes HelloMessage.serverName
  cases hextensions : m.extensions with
  | none => rfl
  | some list =>
    have hall : (tagged 2 2 Nat.two_pos).all (list.flatMap Extension.write) =
        some (list.map fun e => (e.type, e.data)) :=
      tagged_all_write Nat.two_pos (fun e => e.fits.1) (fun e => e.fits.2) list
    have hsome : vectorBytes 2 (list.flatMap Extension.write) ≠ [] := by
      refine List.ne_nil_of_length_pos ?_
      rw [length_vectorBytes]
      omega
    rw [if_neg hsome, vector_vectorBytes_self (m.extensions_fit list hextensions),
      Option.bind_some]
    dsimp only
    rw [hall, Option.bind_some, foldlM_keepServerName, if_pos rfl]
    rfl

lemma handshakeName_write (m : HelloMessage) (hfits : m.write.length < 256 ^ 2) :
    handshakeName m.write = some m.serverName := by
  have hbody : m.body.length < 256 ^ 3 := by
    rw [HelloMessage.write, List.length_append, length_vectorBytes] at hfits
    omega
  unfold handshakeName HelloMessage.write
  rw [number_numberBytes (by decide)]
  simp only [Option.bind_eq_bind, Option.bind_some]
  rw [if_neg (not_not.2 rfl), vector_vectorBytes_self hbody, Option.bind_some]
  exact serverNameOf_body m

/-- The record, and what comes behind it. -/
lemma recordResult_record (h : ClientHello) (rest : Bytes) : recordResult (h.record ++ rest) =
    { status := .parsed, serverName := h.message.serverName } := by
  have hnumber : number 2 (vectorBytes 2 h.message.write ++ rest) =
      some (h.message.write.length, h.message.write ++ rest) := by
    rw [vectorBytes, List.append_assoc]
    exact number_numberBytes h.fits
  have hfour : ¬((0x16 : UInt8) ≠ 0x16 ∨ h.message.write.length < 4) :=
    not_or.2 ⟨not_not.2 rfl, h.message.four_le_length.not_gt⟩
  have hwhole : ¬(h.message.write ++ rest).length < h.message.write.length := by
    rw [List.length_append]
    omega
  rw [ClientHello.record, List.cons_append, List.cons_append, List.cons_append,
    recordResult_of_number hnumber, if_neg hfour, if_neg hwhole, List.take_left,
    handshakeName_write h.message h.fits]
  rfl

/-- As long as the record is not there as a whole, more of it is needed. -/
lemma recordResult_early (h : ClientHello) {bytes : Bytes} (hpre : bytes <+: h.record)
    (hne : bytes ≠ h.record) : recordResult bytes = {} := by
  obtain ⟨more, hmore⟩ := hpre
  match bytes with
  | [] | [_] | [_, _] => rfl
  | first :: major :: minor :: record =>
    rw [List.cons_append, List.cons_append, List.cons_append, ClientHello.record] at hmore
    obtain ⟨rfl, rfl, rfl, hrecord⟩ : first = 0x16 ∧ major = h.major ∧ minor = h.minor ∧
        record ++ more = vectorBytes 2 h.message.write := by
      simpa only [List.cons.injEq] using hmore
    by_cases hsize : 2 ≤ record.length
    · obtain ⟨length, rest, hlength⟩ := number_of_le hsize
      have hwhole := number_append hlength more
      rw [hrecord, vectorBytes, number_numberBytes h.fits, Option.some.injEq, Prod.mk.injEq]
        at hwhole
      obtain ⟨rfl, hrest⟩ := hwhole
      have hleft : rest.length < h.message.write.length := by
        rw [hrest, List.length_append]
        refine Nat.lt_add_of_pos_right (List.length_pos_iff.2 ?_)
        rintro rfl
        rw [List.append_nil] at hrecord
        exact hne (by rw [ClientHello.record, hrecord])
      have hfour : ¬((0x16 : UInt8) ≠ 0x16 ∨ h.message.write.length < 4) :=
        not_or.2 ⟨not_not.2 rfl, h.message.four_le_length.not_gt⟩
      rw [recordResult_of_number hlength, if_neg hfour, if_pos hleft]
    · exact recordResult_of_lt (not_le.1 hsize) _ _ _

/-- More bytes do not change what was found. -/
lemma recordResult_append {bytes : Bytes} (h : (recordResult bytes).status ≠ .needMore)
    (more : Bytes) : recordResult (bytes ++ more) = recordResult bytes := by
  match bytes with
  | [] | [_] | [_, _] => exact absurd rfl h
  | first :: major :: minor :: record =>
    by_cases hsize : 2 ≤ record.length
    · obtain ⟨length, rest, hlength⟩ := number_of_le hsize
      rw [List.cons_append, List.cons_append, List.cons_append,
        recordResult_of_number (number_append hlength more)]
      rw [recordResult_of_number hlength] at h ⊢
      by_cases hrefused : first ≠ 0x16 ∨ length < 4
      · rw [if_pos hrefused, if_pos hrefused]
      · rw [if_neg hrefused] at h ⊢
        rw [if_neg hrefused]
        by_cases hshort : rest.length < length
        · rw [if_pos hshort] at h
          exact absurd rfl h
        · have hwhole : ¬(rest ++ more).length < length := by
            rw [List.length_append]
            omega
          rw [if_neg hshort, if_neg hwhole, List.take_append_of_le_length (not_lt.1 hshort)]
    · rw [recordResult_of_lt (not_le.1 hsize)] at h
      exact absurd rfl h

/-- **The server name is found, and what is found stands.** -/
theorem client_hello_exact : (∀ bytes, (parseClientHello bytes).isSome) ∧
    (∀ bytes more result, parseClientHello bytes = some result → result.status ≠ .needMore →
      parseClientHello (bytes ++ more) = some result) ∧
    ∀ h : ClientHello,
      (∀ rest, parseClientHello (h.record ++ rest) =
        some { status := .parsed, serverName := h.message.serverName }) ∧
      ∀ bytes, bytes <+: h.record → bytes ≠ h.record →
        parseClientHello bytes = some { status := .needMore } := by
  simp only [parseClientHello_eq]
  refine ⟨fun bytes => rfl, ?_, fun h => ⟨?_, ?_⟩⟩
  · rintro bytes more _ ⟨⟩ hfound
    rw [recordResult_append hfound]
  · intro rest
    rw [recordResult_record]
  · intro bytes hpre hne
    rw [recordResult_early h hpre hne]

/-- A client hello for the host `a`, with two bytes behind it. -/
theorem client_hello_exact_named : ∃ h : ClientHello, parseClientHello (h.record ++ [23, 3]) =
    some { status := .parsed, serverName := [97] } := by
  let name : Extension := .serverName [⟨0, [97], by decide⟩] (by decide)
  let message : HelloMessage :=
    { versionAndRandom := List.replicate 34 0
      sessionId := []
      cipherSuites := [0x13, 0x01]
      compressionMethods := [0]
      extensions := some [name]
      length_versionAndRandom := rfl
      sessionId_fits := by decide
      cipherSuites_fits := by decide
      compressionMethods_fits := by decide
      extensions_fit := by rintro _ ⟨⟩; decide }
  have hfits : message.write.length < 256 ^ 2 := by decide
  exact ⟨⟨3, 1, message, hfits⟩, (client_hello_exact.2.2 ⟨3, 1, message, hfits⟩).1 [23, 3]⟩

end Written

end Link

end ArgusBackend
