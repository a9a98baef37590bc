import Libipfs.Lib.Run
import Libipfs.Merkledag.Merkledag
import Libipfs.Repo.LmdbDatastore
import Libipfs.Routing.Announcements

/-!
# Values that are put and values that are served

A value that is put goes into the datastore.  A value that is asked for is looked up there too, but
what is served is read from the block file of the key: the node in it, encoded once more.

* `fsrepoNodeGet`       the filestore, over the tables and the block files of a repository;
* `repoContext`         the stores of the handlers over such a repository;
* `sentMessage`         a message with the key of its record as it was sent, zero bytes included;
* `ValueOp`, `valueStep`   a message of a remote, or whatever the node itself does to its repository;
* `RightValue`          the value that was put last, and no record for a key that nobody has;
* `ServableValue`       a key is asked for only when its block file serves what was put;
* `rightValue_along`    **values are served** along a run of such messages.
-/

namespace Ipfs
open CSem Libp2p Lmdb

/-! ## the repository -/

structure NodeRepo where
  lmdb : LmdbContext
  files : Files

/-- the node of a key that the datastore has, encoded; one that was freed by its decoder is freed
again -/
def fsrepoNodeGet (repo : NodeRepo) (hash : List UInt8) : Exec (Option (List UInt8)) := do
  match ← repoFsrepoLmdbGet hash repo.lmdb with
  | none => .ok none
  | some _ => do
    let block ← blockstoreReadBlock hash repo.files
    match ← hashtableNodeProtobufDecode block.data with
    | none => if block.data = [] then .ok none else .error .freed
    | some node => do
      let bytes ← hashtableNodeProtobufEncode node (hashtableNodeProtobufEncodeSize node)
      .ok (some bytes)

def datastoreHas (repo : NodeRepo) (key : List UInt8) : Exec Bool := do
  let record ← repoFsrepoLmdbGet key repo.lmdb
  .ok record.isSome

/-- the record comes without a time -/
def datastorePutValue (env : PutEnv) (repo : NodeRepo) (key value : List UInt8) :
    Exec (Bool × NodeRepo) := do
  let (retVal, _, lmdb) ←
    repoFsrepoLmdbPut env { key := key, value := value, timestamp := 0 } repo.lmdb
  .ok (retVal ≠ 0, { repo with lmdb := lmdb })

def repoContext (env : PutEnv) : DhtContext NodeRepo where
  watching := false
  datastoreGet := datastoreHas
  datastorePut := datastorePutValue env
  nodeGet := fsrepoNodeGet

/-! ## what was sent -/

/-- as the decoder, but the key is not cut at a zero byte -/
def sentRecordFields (fieldNo : Int) : FieldCase Record :=
  if fieldNo = 1 then
    .bytes fun d record => .ok (some { record with key := some d, keySize := d.length })
  else recordFields fieldNo

def sentMessageFields (fieldNo : Int) : FieldCase DhtMessage :=
  if fieldNo = 3 then
    .bytes fun d msg => do
      match ← decodeFields sentRecordFields d {} with
      | none => .ok none
      | some record => .ok (some { msg with record := some record })
  else dhtMessageFields fieldNo

def sentMessage (buf : Option (List UInt8)) : Exec (Option DhtMessage) :=
  match buf with
  | none => .ok none
  | some bytes => decodeFields sentMessageFields bytes {}

/-- a key and a value -/
abbrev PutValue : Type := List UInt8 × List UInt8

/-- the key as it was sent and the value, when the message is one that puts them and the datastore
says that it has them -/
def successfulPut (env : PutEnv) (repo : NodeRepo) (msg sent : DhtMessage) : Option PutValue :=
  if msg.messageType.toNat = 0 then
    match msg.record, sent.record with
    | some record, some sentRecord =>
      match datastorePutValue env repo ((record.key.getD []).take record.keySize) record.value with
      | .ok (true, _) => some (sentRecord.key.getD [], record.value)
      | _ => none
    | _, _ => none
  else none

def putOf (env : PutEnv) (repo : NodeRepo) (buf : Option (List UInt8)) : Option PutValue :=
  match dhtReceived buf, sentMessage buf with
  | .ok (some msg), .ok (some sent) => successfulPut env repo msg sent
  | _, _ => none

/-- the last that was put is the first of the list -/
def latestPut (puts : List PutValue) (key : List UInt8) : Option (List UInt8) :=
  (puts.find? fun put => put.1 = key).map Prod.snd

/-! ## a node, and what happens to it -/

/-- the node and the successful puts before a message, and the reply to it -/
structure ValueExchange where
  before : DhtNode NodeRepo
  puts : List PutValue
  msg : Option DhtMessage
  reply : Option (List UInt8)

structure ValueTrace where
  node : DhtNode NodeRepo
  puts : List PutValue
  exchanges : List ValueExchange

/-- a message is handled, or the node's own commands make another repository of its one -/
inductive ValueOp where
  | handled (env : PutEnv) (buf : Option (List UInt8))
  | own (repo : NodeRepo)

def valueStep : ValueOp → ValueTrace → Exec ValueTrace
  | .handled env buf, t => do
    let msg ← dhtReceived buf
    let (reply, node) ← dhtHandleMessage (repoContext env) t.node buf
    .ok { node := node
          puts := (putOf env t.node.repo buf).toList ++ t.puts
          exchanges := t.exchanges ++
            [{ before := t.node, puts := t.puts, msg := msg, reply := reply }] }
  | .own repo, t => .ok { t with node := { t.node with repo := repo } }

/-- the key has a block file -/
def HeldLocally (files : Files) (key : List UInt8) : Prop :=
  ∃ name, hashToBase32 key = .ok (some name) ∧ (files name).isSome = true

/-- the value that was put last under the key, and no record when none was put and there is no
block of the key -/
def RightValue (x : ValueExchange) : Prop :=
  ∀ msg, x.msg = some msg → msg.messageType.toNat = 1 →
    (∀ value, latestPut x.puts msg.keyBytes = some value →
      x.reply = some (Libp2p.messageBytes (msg.holding value))) ∧
    (latestPut x.puts msg.keyBytes = none → ¬ HeldLocally x.before.repo.files msg.keyBytes →
      x.reply = none)

/-! ## the messages that can be served -/

/-- the block file of a key is there, and a block with these data is in it -/
def Shelved (files : Files) (key data : List UInt8) : Prop :=
  ∃ name content block, hashToBase32 key = .ok (some name) ∧ files name = some content ∧
    content.length < 2 ^ 31 ∧ blocksBlockProtobufDecode content = .ok (some block) ∧
    block.data = data

/-- the block of the key is that of a node, which is encoded to `value` -/
def ServesNode (files : Files) (key value : List UInt8) : Prop :=
  ∃ data node, Shelved files key data ∧ hashtableNodeProtobufDecode data = .ok (some node) ∧
    hashtableNodeProtobufEncode node (hashtableNodeProtobufEncodeSize node) = .ok value

/-- the time fits, and the search of the journal for the record that is there returns -/
def ServablePut (env : PutEnv) (repo : NodeRepo) (msg : DhtMessage) : Prop :=
  ∀ record, msg.record = some record → env.now < 2 ^ 56 ∧
    ∀ existing, repoFsrepoLmdbGet ((record.key.getD []).take record.keySize) repo.lmdb =
        .ok existing →
      Safe (searchJournal existing
        { key := (record.key.getD []).take record.keySize, value := record.value, timestamp := 0 }
        repo.lmdb.journal)

/-- a key that the datastore does not have was not put, and can be written to the log.  One that it
has has a block file: an empty block, and then the same as for the others, or a node that is
encoded to the value that was put last, if any was. -/
def ServableGet (t : ValueTrace) (msg : DhtMessage) : Prop :=
  (t.node.repo.lmdb.datastore.values msg.keyBytes = [] ∧
    latestPut t.puts msg.keyBytes = none ∧ Printable msg.keyBytes) ∨
  (Shelved t.node.repo.files msg.keyBytes [] ∧
    latestPut t.puts msg.keyBytes = none ∧ Printable msg.keyBytes) ∨
  (t.node.repo.lmdb.datastore.values msg.keyBytes ≠ [] ∧
    ∃ value, ServesNode t.node.repo.files msg.keyBytes value ∧
      (∀ put, latestPut t.puts msg.keyBytes = some put → put = value) ∧
      ReplyFits (msg.holding value))

/-- a message that puts a value or asks for one, of those kinds; what the node does itself leaves a
table of records -/
def ServableValue : ValueOp → ValueTrace → Prop
  | .handled env buf, t => ∃ msg, dhtReceived buf = .ok (some msg) ∧
    (msg.messageType.toNat = 0 ∧ ServablePut env t.node.repo msg ∨
      msg.messageType.toNat = 1 ∧ ServableGet t msg)
  | .own repo, _ => HoldsRecords repo.lmdb.datastore

/-! ## what the stores do with them -/

section
variable {repo : NodeRepo} {key value data : List UInt8} {env : PutEnv} {msg : DhtMessage}
  {t : ValueTrace}

theorem blockstoreReadBlock_of_shelved (h : Shelved repo.files key data) :
    ∃ block, blockstoreReadBlock key repo.files = .ok block ∧ block.data = data := by
  obtain ⟨name, content, block, hname, hfile, hlen, hdecode, hdata⟩ := h
  exact ⟨block, blockstoreReadBlock_of_lt hname hfile hlen hdecode, hdata⟩

/-- **a key that the datastore does not have** -/
theorem fsrepoNodeGet_of_nil (h : repo.lmdb.datastore.values key = []) :
    fsrepoNodeGet repo key = .ok none := by
  unfold fsrepoNodeGet
  rw [get_of_values_nil h, ok_bind]

theorem fsrepoNodeGet_of_empty (hrec : HoldsRecords repo.lmdb.datastore)
    (h : Shelved repo.files key []) : fsrepoNodeGet repo key = .ok none := by
  obtain ⟨block, hblock, hdata⟩ := blockstoreReadBlock_of_shelved h
  obtain ⟨hnil, -⟩ | ⟨record, rest, -, -, -, -, hget⟩ := hrec.get key
  · exact fsrepoNodeGet_of_nil hnil
  · have hdecode : hashtableNodeProtobufDecode block.data = .ok none := by
      rw [hdata]
      rfl
    unfold fsrepoNodeGet
    rw [hget, ok_bind]
    dsimp only
    rw [hblock, ok_bind, hdecode, ok_bind]
    exact if_pos hdata

/-- **a key whose block serves a node** -/
theorem fsrepoNodeGet_of_serves (hrec : HoldsRecords repo.lmdb.datastore)
    (hkey : repo.lmdb.datastore.values key ≠ []) (h : ServesNode repo.files key value) :
    fsrepoNodeGet repo key = .ok (some value) := by
  obtain ⟨data, node, hshelved, hdecode, hencode⟩ := h
  obtain ⟨block, hblock, hdata⟩ := blockstoreReadBlock_of_shelved hshelved
  obtain ⟨hnil, -⟩ | ⟨record, rest, -, -, -, -, hget⟩ := hrec.get key
  · exact absurd hnil hkey
  · unfold fsrepoNodeGet
    rw [hget, ok_bind]
    dsimp only
    rw [hblock, ok_bind, hdata, hdecode, ok_bind]
    dsimp only
    rw [hencode, ok_bind]

/-- **a put** leaves a table of records, and the block files alone -/
theorem datastorePutValue_ok (hrec : HoldsRecords repo.lmdb.datastore) (hnow : env.now < 2 ^ 56)
    (hsearch : ∀ existing, repoFsrepoLmdbGet key repo.lmdb = .ok existing →
      Safe (searchJournal existing { key := key, value := value, timestamp := 0 }
        repo.lmdb.journal)) :
    ∃ put lmdb, datastorePutValue env repo key value = .ok (put, { repo with lmdb := lmdb }) ∧
      HoldsRecords lmdb.datastore := by
  obtain ⟨existing, hget⟩ : ∃ existing, repoFsrepoLmdbGet key repo.lmdb = .ok existing := by
    obtain ⟨-, hget⟩ | ⟨record, rest, -, -, -, -, hget⟩ := hrec.get key
    · exact ⟨none, hget⟩
    · exact ⟨some record, hget⟩
  -- no time is later than none at all
  have hlowered : lowered existing { key := key, value := value, timestamp := 0 } =
      { key := key, value := value, timestamp := 0 } := by
    unfold lowered
    cases existing with
    | none => rfl
    | some existing => exact if_neg fun hlater => absurd hlater.2 (Nat.not_lt_zero _)
  obtain ⟨journalRecord, hjournal⟩ := hsearch existing hget
  have hfits : (stamped env.now
      (lowered existing { key := key, value := value, timestamp := 0 })).timestamp < 2 ^ 56 := by
    rw [hlowered, stamped_timestamp, if_pos (.inl rfl)]
    exact hnow
  obtain ⟨⟨retVal, lmdb⟩, hwritten⟩ := @written_safe env _ repo.lmdb journalRecord hfits
  have hput : repoFsrepoLmdbPut env { key := key, value := value, timestamp := 0 } repo.lmdb =
      .ok (retVal, stamped env.now
        (lowered existing { key := key, value := value, timestamp := 0 }), lmdb) :=
    repoFsrepoLmdbPut_eq_ok.2
      ⟨existing, journalRecord, hget, hlowered.symm ▸ hjournal, hfits, rfl, hwritten⟩
  refine ⟨retVal ≠ 0, lmdb, ?_, hrec.put hput⟩
  unfold datastorePutValue
  rw [hput, ok_bind]

/-! ## along a run -/

theorem dhtHandleGetValue_none {node : DhtNode NodeRepo}
    (hget : fsrepoNodeGet node.repo msg.keyBytes = .ok none) (hprint : Printable msg.keyBytes) :
    dhtHandleGetValue (repoContext env) node msg = .ok none := by
  obtain ⟨text, htext⟩ := cryptoEncodingBase58EncodeInto_ok hprint
  have hnode : (repoContext env).nodeGet node.repo msg.keyBytes = .ok none := hget
  unfold dhtHandleGetValue
  rw [hnode, ok_bind]
  dsimp only
  rw [htext, ok_bind]

theorem dhtHandleGetValue_some {node : DhtNode NodeRepo}
    (hget : fsrepoNodeGet node.repo msg.keyBytes = .ok (some value))
    (hfits : ReplyFits (msg.holding value)) :
    dhtHandleGetValue (repoContext env) node msg =
      .ok (some (Libp2p.messageBytes (msg.holding value))) := by
  have hnode : (repoContext env).nodeGet node.repo msg.keyBytes = .ok (some value) := hget
  unfold dhtHandleGetValue
  rw [hnode, ok_bind]
  exact dhtProtobufMessage_eq hfits

/-- **who asks for a value** gets the right reply -/
theorem dhtHandleGetValue_right (hrec : HoldsRecords t.node.repo.lmdb.datastore)
    (h : ServableGet t msg) :
    ∃ reply, dhtHandleGetValue (repoContext env) t.node msg = .ok reply ∧
      RightValue { before := t.node, puts := t.puts, msg := some msg, reply := reply } := by
  obtain ⟨hnil, hnone, hprint⟩ | ⟨hempty, hnone, hprint⟩ | ⟨hkey, value, hserves, hsame, hfits⟩ := h
  · refine ⟨none, dhtHandleGetValue_none (fsrepoNodeGet_of_nil hnil) hprint, ?_⟩
    rintro m ⟨⟩ -
    refine ⟨fun value hput => ?_, fun _ _ => rfl⟩
    rw [show latestPut t.puts msg.keyBytes = none from hnone] at hput
    cases hput
  · refine ⟨none, dhtHandleGetValue_none (fsrepoNodeGet_of_empty hrec hempty) hprint, ?_⟩
    rintro m ⟨⟩ -
    refine ⟨fun value hput => ?_, fun _ _ => rfl⟩
    rw [show latestPut t.puts msg.keyBytes = none from hnone] at hput
    cases hput
  · refine ⟨_, dhtHandleGetValue_some (fsrepoNodeGet_of_serves hrec hkey hserves) hfits, ?_⟩
    rintro m ⟨⟩ -
    refine ⟨fun put hput => ?_, fun _ hnot => ?_⟩
    · rw [hsame put hput]
    · -- the block file is what `HeldLocally` speaks of
      obtain ⟨data, node, ⟨name, content, block, hname, hfile, -⟩, -⟩ := hserves
      exact absurd ⟨name, hname, by rw [hfile]; rfl⟩ hnot

/-- the datastore is a table of records, and every reply was the right one -/
structure ValuesKept (t : ValueTrace) : Prop where
  records : HoldsRecords t.node.repo.lmdb.datastore
  right : ∀ x ∈ t.exchanges, RightValue x

theorem ValuesKept.exchange (h : ValuesKept t) {node : DhtNode NodeRepo} {puts : List PutValue}
    {x : ValueExchange} (hrec : HoldsRecords node.repo.lmdb.datastore) (hx : RightValue x) :
    ValuesKept { node := node, puts := puts, exchanges := t.exchanges ++ [x] } where
  records := hrec
  right := by
    intro y hy
    obtain hy | hy := List.mem_append.1 hy
    · exact h.right y hy
    · rw [List.mem_singleton.1 hy]
      exact hx

/-- **one operation** -/
theorem ValuesKept.step (op : ValueOp) (t : ValueTrace) (h : ValuesKept t)
    (hop : ServableValue op t) : ∃ t', valueStep op t = .ok t' ∧ ValuesKept t' := by
  cases op with
  | own repo => exact ⟨_, rfl, { records := hop, right := h.right }⟩
  | handled env buf =>
    obtain ⟨msg, hmsg, ⟨htype, hput⟩ | ⟨htype, hget⟩⟩ := hop
    · -- a put is not answered
      obtain ⟨node, hnode, hrec⟩ : ∃ node,
          dhtHandlePutValue (repoContext env) t.node msg = .ok node ∧
            HoldsRecords node.repo.lmdb.datastore := by
        unfold dhtHandlePutValue
        cases hrecord : msg.record with
        | none => exact ⟨t.node, rfl, h.records⟩
        | some record =>
          obtain ⟨hnow, hsearch⟩ := hput record hrecord
          obtain ⟨put, lmdb, hdone, hrec⟩ := datastorePutValue_ok h.records hnow hsearch
          have hdone' : (repoContext env).datastorePut t.node.repo
              ((record.key.getD []).take record.keySize) record.value =
                .ok (put, { t.node.repo with lmdb := lmdb }) := hdone
          dsimp only
          rw [hdone', ok_bind]
          exact ⟨_, rfl, hrec⟩
      have hhandled : dhtHandleMessage (repoContext env) t.node buf = .ok (none, node) := by
        unfold dhtHandleMessage dhtDispatch
        rw [hmsg, ok_bind]
        dsimp only
        rw [htype, hnode, ok_bind]
        rfl
      unfold valueStep
      dsimp only
      rw [hmsg, ok_bind, hhandled, ok_bind]
      refine ⟨_, rfl, h.exchange hrec ?_⟩
      rintro m ⟨⟩ hone
      rw [htype] at hone
      cases hone
    · obtain ⟨reply, hreply, hright⟩ := dhtHandleGetValue_right h.records hget
      have hhandled : dhtHandleMessage (repoContext env) t.node buf = .ok (reply, t.node) := by
        unfold dhtHandleMessage dhtDispatch
        rw [hmsg, ok_bind]
        dsimp only
        rw [htype, hreply, ok_bind]
        rfl
      unfold valueStep
      dsimp only
      rw [hmsg, ok_bind, hhandled, ok_bind]
      exact ⟨_, rfl, h.exchange h.records hright⟩

/-- **values are served** along a run of messages that can be served -/
theorem rightValue_along {ops : List ValueOp} (hrec : HoldsRecords t.node.repo.lmdb.datastore)
    (hnew : t.exchanges = []) (hserve : Guarded valueStep ServableValue ops t) :
    HoldsAlong valueStep (fun t => ∀ x ∈ t.exchanges, RightValue x) ops t := by
  have hstart : ValuesKept t :=
    { records := hrec
      right := by
        rw [hnew]
        exact fun x hx => absurd hx List.not_mem_nil }
  exact HoldsAlong.mono (fun _ hkept => hkept.right)
    (holdsAlong_of_step ValuesKept.step hstart hserve)

end

/-! ### two runs -/

def helloKey : List UInt8 := asciiBytes "hello"

/-- the key `hello` with the bytes of a node for its value -/
def putHelloBytes : List UInt8 :=
  [8, 0, 18, 5, 104, 101, 108, 108, 111,
   26, 12, 10, 5, 104, 101, 108, 108, 111, 18, 3, 10, 1, 1]

/-- the value of the key `hello`? -/
def getHelloBytes : List UInt8 := [8, 1, 18, 5, 104, 101, 108, 108, 111]

/-- the block of the same node, under the hash `hello` -/
def helloBlockBytes : List UInt8 :=
  [10, 3, 10, 1, 1, 18, 11, 8, 1, 16, 112, 26, 5, 104, 101, 108, 108, 111]

def roomyEnv : PutEnv where
  now := 7
  datastoreFull := false
  journalFull := false
  frame := .intact

/-- empty tables, with these block files -/
def emptyTrace (files : Files) : ValueTrace where
  node :=
    { peerStore := []
      providerStore := []
      localId := []
      repo := { lmdb := { datastore := .empty, journal := .empty }, files := files } }
  puts := []
  exchanges := []

def helloFiles : Files := fun name => if name = [78] then some helloBlockBytes else none

def putHelloMessage : DhtMessage where
  messageType := 0
  key := some helloKey
  record := some { key := some helloKey, keySize := 5, value := [10, 1, 1] }

theorem putHelloBytes_received : dhtReceived (some putHelloBytes) = .ok (some putHelloMessage) := by
  decide +kernel

def getHelloMessage : DhtMessage where
  messageType := 1
  key := some helloKey

theorem getHelloBytes_received : dhtReceived (some getHelloBytes) = .ok (some getHelloMessage) := by
  decide +kernel

theorem helloBlockBytes_serves {files : Files} (hfile : files [78] = some helloBlockBytes) :
    ServesNode files helloKey [10, 1, 1] := by
  have hname : hashToBase32 helloKey = .ok (some [78]) := by decide +kernel
  have hblock : blocksBlockProtobufDecode helloBlockBytes =
      .ok (some { cid := some (cidNew 1 helloKey 0x70), data := [10, 1, 1] }) := by
    decide +kernel
  have hnode : hashtableNodeProtobufDecode [10, 1, 1] = .ok (some { data := [1] }) := by
    decide +kernel
  exact ⟨[10, 1, 1], { data := [1] },
    ⟨[78], helloBlockBytes, _, hname, hfile, by decide, hblock, rfl⟩, hnode, by decide⟩

theorem rightValue_along_hello :
    HoldsAlong valueStep (fun t => ∀ x ∈ t.exchanges, RightValue x)
      [.handled roomyEnv (some putHelloBytes), .handled roomyEnv (some getHelloBytes)]
      (emptyTrace helloFiles) := by
  refine rightValue_along holdsRecords_empty rfl
    ⟨⟨_, putHelloBytes_received, .inl ⟨rfl, ?_⟩⟩, fun t ht =>
      ⟨⟨_, getHelloBytes_received, .inr ⟨rfl, .inr (.inr ?_)⟩⟩, fun _ _ => trivial⟩⟩
  · rintro record ⟨⟩
    refine ⟨by decide, fun existing hexisting => ?_⟩
    obtain rfl : none = existing :=
      Except.ok.inj ((get_of_values_nil Multimap.values_empty).symm.trans hexisting)
    exact ⟨none, rfl⟩
  · have hstep : (valueStep (.handled roomyEnv (some putHelloBytes)) (emptyTrace helloFiles)).map
        (fun t => (t.node.repo.lmdb.datastore.values helloKey, t.node.repo.files [78], t.puts)) =
          .ok ([[7, 10, 1, 1]], some helloBlockBytes, [(helloKey, [10, 1, 1])]) := by
      decide +kernel
    rw [ht] at hstep
    obtain ⟨hvalues, hrest⟩ := Prod.mk.inj (Except.ok.inj hstep)
    obtain ⟨hfile, hputs⟩ := Prod.mk.inj hrest
    have hkey : getHelloMessage.keyBytes = helloKey := rfl
    rw [hkey, hvalues, hputs]
    refine ⟨List.cons_ne_nil _ _, [10, 1, 1], helloBlockBytes_serves hfile, ?_, ?_⟩
    · rintro put ⟨⟩
      rfl
    · unfold ReplyFits
      decide

/-- **a value that was put is asked for**: there is no block file of its key -/
theorem not_rightValue_along_hello :
    HoldsRecords (emptyTrace fun _ => none).node.repo.lmdb.datastore ∧
      ¬ HoldsAlong valueStep (fun t => ∀ x ∈ t.exchanges, RightValue x)
        [.handled roomyEnv (some putHelloBytes), .handled roomyEnv (some getHelloBytes)]
        (emptyTrace fun _ => none) := by
  refine ⟨holdsRecords_empty, fun h => ?_⟩
  obtain ⟨t, ht, -⟩ := h.last
  have hnull : (runOps valueStep
      [.handled roomyEnv (some putHelloBytes), .handled roomyEnv (some getHelloBytes)]
      (emptyTrace fun _ => none)).map ValueTrace.puts = .error .null := by
    decide +kernel
  rw [ht] at hnull
  cases hnull

end Ipfs
