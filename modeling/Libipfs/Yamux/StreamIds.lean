import Libipfs.Yamux.Stream
import Mathlib.Data.List.Nodup

/-!
# The ids of local streams

Two functions take the id of a stream from the counter of the session.  `libp2p_yamux_get_next_id`
corrects the parity of the counter before, and leaves it one behind the id; `yamux_channel_new`
takes the counter as it is, and leaves it two behind.

* `IdRun`            a connection as both are called, with whatever else happens in between;
* `takenIds`         the ids by the counter alone;
* `IdRun.ids_eq`     **the ids of a run** are those;
* `takenIds_signed_iff`   they have the parity of the side iff no `yamux_channel_new` comes behind a
                     `libp2p_yamux_get_next_id`;
* `streamIds_iff`    **and are distinct as well** iff there are not more than 2^31 calls.
-/

namespace Libp2p
open CSem

/-- the parity of the ids that a side hands out -/
def Signed (server : Bool) (id : UInt32) : Prop := id % 2 = if server then 0 else 1

instance (server : Bool) (id : UInt32) : Decidable (Signed server id) :=
  inferInstanceAs (Decidable (_ = _))

inductive IdCall where
  | getNextId
  | channelNew
  deriving DecidableEq, Repr

/-- a connection with the calls that took an id from its counter, and the ids -/
inductive IdRun (start : YamuxContext) : List IdCall → List UInt32 → YamuxContext → Prop
  | start : IdRun start [] [] start
  | getNextId {calls : List IdCall} {ids : List UInt32} {ctx : YamuxContext}
      (h : IdRun start calls ids ctx) :
      IdRun start (calls ++ [.getNextId]) (ids ++ [(libp2pYamuxGetNextId ctx).1])
        (libp2pYamuxGetNextId ctx).2
  | channelNew {calls : List IdCall} {ids : List UInt32} {ctx ctx' : YamuxContext}
      {channel : Option Nat} (h : IdRun start calls ids ctx)
      (hnew : yamuxChannelNew 0 ctx = .ok (channel, ctx')) :
      IdRun start (calls ++ [.channelNew]) (ids ++ [(ctx.session.takeId 0).1]) ctx'
  /-- nothing else in the source writes to the counter, or to the side -/
  | other {calls : List IdCall} {ids : List UInt32} {ctx ctx' : YamuxContext}
      (h : IdRun start calls ids ctx) (hnextid : ctx'.session.nextid = ctx.session.nextid)
      (hserver : ctx'.amServer = ctx.amServer) : IdRun start calls ids ctx'

/-! ## the counter -/

/-- the id a call takes, and the counter it leaves -/
def IdCall.take (server : Bool) (counter : UInt32) : IdCall → UInt32 × UInt32
  | .getNextId =>
    let id := if Signed server counter then counter else counter + 1
    (id, id + 1)
  | .channelNew => (counter, counter + 2)

def takenIds (server : Bool) : UInt32 → List IdCall → List UInt32
  | _, [] => []
  | counter, call :: calls =>
    (call.take server counter).1 :: takenIds server (call.take server counter).2 calls

def counterAfter (server : Bool) (counter : UInt32) (calls : List IdCall) : UInt32 :=
  calls.foldl (fun counter call => (call.take server counter).2) counter

section
variable {server : Bool} {counter id : UInt32} {calls : List IdCall} {ids : List UInt32}
  {start ctx ctx' : YamuxContext}

theorem signed_iff : Signed server id ↔ id.toNat % 2 = if server then 0 else 1 := by
  have hmod : (id % 2).toNat = id.toNat % 2 := UInt32.toNat_mod id 2
  unfold Signed
  rw [← UInt32.toNat_inj, hmod]
  cases server <;> rfl

theorem signed_add_one : Signed server (id + 1) ↔ ¬ Signed server id := by
  have hadd : (id + 1).toNat = (id.toNat + 1) % 2 ^ 32 := UInt32.toNat_add id 1
  rw [signed_iff, signed_iff, hadd]
  cases server
  · show _ = 1 ↔ ¬ _ = 1
    omega
  · show _ = 0 ↔ ¬ _ = 0
    omega

theorem signed_add_two : Signed server (id + 2) ↔ Signed server id := by
  have hadd : id + 2 = id + 1 + 1 := by rw [UInt32.add_assoc]; rfl
  rw [hadd, signed_add_one, signed_add_one, not_not]

theorem takenIds_concat (call : IdCall) :
    takenIds server counter (calls ++ [call]) = takenIds server counter calls ++
      [(call.take server (counterAfter server counter calls)).1] := by
  induction calls generalizing counter with
  | nil => rfl
  | cons c calls ih =>
    show _ :: takenIds server (c.take server counter).2 (calls ++ [call]) = _
    rw [ih]
    rfl

theorem counterAfter_concat (call : IdCall) :
    counterAfter server counter (calls ++ [call]) =
      (call.take server (counterAfter server counter calls)).2 := by
  unfold counterAfter
  rw [List.foldl_append]
  rfl

theorem libp2pYamuxGetNextId_eq :
    (libp2pYamuxGetNextId ctx).1 = (IdCall.getNextId.take ctx.amServer ctx.session.nextid).1 ∧
      (libp2pYamuxGetNextId ctx).2.session.nextid =
        (IdCall.getNextId.take ctx.amServer ctx.session.nextid).2 := by
  have hparity : ((ctx.amServer ∧ ctx.session.nextid % 2 = 1) ∨
      (¬ ctx.amServer ∧ ctx.session.nextid % 2 = 0)) ↔
        ¬ Signed ctx.amServer ctx.session.nextid := by
    have hmod : (ctx.session.nextid % 2).toNat = ctx.session.nextid.toNat % 2 :=
      UInt32.toNat_mod _ 2
    rw [signed_iff, ← UInt32.toNat_inj, ← UInt32.toNat_inj, hmod]
    cases ctx.amServer
    · show (false = true ∧ _) ∨ (¬ false = true ∧ _ = 0) ↔ ¬ _ = 1
      simp
    · show (true = true ∧ _ = 1) ∨ (¬ true = true ∧ _) ↔ ¬ _ = 0
      simp
  unfold libp2pYamuxGetNextId IdCall.take
  by_cases h : Signed ctx.amServer ctx.session.nextid
  · rw [if_pos h]
    simp only [hparity, h, not_true_eq_false, if_false, and_self]
  · rw [if_neg h]
    simp only [hparity, h, not_false_eq_true, if_true, and_self]

/-- a creation changes the counter as it takes the id from it, and no side -/
theorem yamuxChannelNew_nextid {channel : Option Nat}
    (h : yamuxChannelNew 0 ctx = .ok (channel, ctx')) :
    (ctx.session.takeId 0).1 = ctx.session.nextid ∧
      ctx'.session.nextid = ctx.session.nextid + 2 ∧ ctx'.amServer = ctx.amServer := by
  refine ⟨rfl, ?_⟩
  obtain ⟨taken, htake, h⟩ := bind_eq_ok.1 h
  cases taken with
  | none =>
    cases h
    exact ⟨rfl, rfl⟩
  | some taken =>
    cases h
    rcases yamuxTakeSlot_eq_some htake with hdead | hgrow
    · obtain ⟨ss, s, -, -, -, -, hsession⟩ := hdead
      refine ⟨?_, rfl⟩
      show taken.2.nextid = _
      rw [hsession]
      rfl
    · obtain ⟨hlt, -, -, hsession⟩ := hgrow
      refine ⟨?_, rfl⟩
      show taken.2.nextid = _
      rw [hsession]
      rfl

/-- **the ids of a run** are taken from the counter that its connection starts with -/
theorem IdRun.ids_eq (h : IdRun start calls ids ctx) :
    ids = takenIds start.amServer start.session.nextid calls ∧
      ctx.session.nextid = counterAfter start.amServer start.session.nextid calls ∧
      ctx.amServer = start.amServer := by
  induction h with
  | start => exact ⟨rfl, rfl, rfl⟩
  | @getNextId calls ids ctx h ih =>
    obtain ⟨hids, hcounter, hserver⟩ := ih
    obtain ⟨hid, hnext⟩ := @libp2pYamuxGetNextId_eq ctx
    rw [hserver, hcounter] at hid hnext
    rw [takenIds_concat, counterAfter_concat, hids, hid, hnext]
    exact ⟨rfl, rfl, hserver⟩
  | @channelNew calls ids ctx ctx' channel h hnew ih =>
    obtain ⟨hids, hcounter, hserver⟩ := ih
    obtain ⟨hid, hnext, hside⟩ := yamuxChannelNew_nextid hnew
    rw [takenIds_concat, counterAfter_concat, hids, hid, hnext, hcounter]
    exact ⟨rfl, rfl, hside.trans hserver⟩
  | @other calls ids ctx ctx' h hnextid hserver ih =>
    exact ⟨ih.1, hnextid.trans ih.2.1, hserver.trans ih.2.2⟩

/-! ## parity -/

theorem takenIds_signed_of_not (h : ¬ Signed server counter) :
    (∀ id ∈ takenIds server counter calls, Signed server id) ↔
      ∀ call ∈ calls, call = .getNextId := by
  induction calls generalizing counter with
  | nil => exact iff_of_true (fun id hid => nomatch hid) (fun call hcall => nomatch hcall)
  | cons call calls ih =>
    cases call with
    | getNextId =>
      have hid : Signed server (counter + 1) := signed_add_one.2 h
      have hnext : ¬ Signed server (counter + 1 + 1) := by
        rw [signed_add_one, not_not]
        exact hid
      have htake : IdCall.getNextId.take server counter = (counter + 1, counter + 1 + 1) := by
        unfold IdCall.take
        rw [if_neg h]
      rw [takenIds, htake, List.forall_mem_cons, List.forall_mem_cons, ih hnext]
      exact and_congr (iff_of_true hid rfl) Iff.rfl
    | channelNew =>
      rw [takenIds, List.forall_mem_cons, List.forall_mem_cons]
      constructor
      · intro hall
        exact absurd hall.1 h
      · intro hall
        exact absurd hall.1 (by decide)

/-- no channel is made behind a call of `libp2p_yamux_get_next_id` -/
def ChannelsFirst (calls : List IdCall) : Prop :=
  calls.Pairwise fun first second => first = .getNextId → second = .getNextId

/-- **the parity** is that of the side as long as no channel is made behind the other call -/
theorem takenIds_signed_iff (h : Signed server counter) :
    (∀ id ∈ takenIds server counter calls, Signed server id) ↔ ChannelsFirst calls := by
  induction calls generalizing counter with
  | nil => exact iff_of_true (fun id hid => nomatch hid) List.Pairwise.nil
  | cons call calls ih =>
    unfold ChannelsFirst at ih ⊢
    rw [takenIds, List.forall_mem_cons, List.pairwise_cons]
    cases call with
    | getNextId =>
      have htake : IdCall.getNextId.take server counter = (counter, counter + 1) := by
        unfold IdCall.take
        rw [if_pos h]
      have hnext : ¬ Signed server (counter + 1) := by
        rw [signed_add_one, not_not]
        exact h
      rw [htake, takenIds_signed_of_not hnext]
      constructor
      · intro hall
        refine ⟨fun second hsecond _ => hall.2 second hsecond, ?_⟩
        refine List.pairwise_of_forall_mem_list ?_
        intro first _ second hsecond _
        exact hall.2 second hsecond
      · intro hall
        exact ⟨h, fun second hsecond => hall.1 second hsecond rfl⟩
    | channelNew =>
      have hnext : Signed server (counter + 2) := signed_add_two.2 h
      have htake : IdCall.channelNew.take server counter = (counter, counter + 2) := rfl
      rw [htake, ih hnext]
      constructor
      · intro hall
        exact ⟨fun second _ hfirst => (by cases hfirst), hall.2⟩
      · intro hall
        exact ⟨h, hall.2⟩

/-! ## distinctness -/

/-- `n` numbers, two apart -/
def idsFrom (first : UInt32) (n : Nat) : List UInt32 :=
  (List.range n).map fun j => first + UInt32.ofNat (2 * j)

theorem idsFrom_succ (first : UInt32) (n : Nat) :
    idsFrom first (n + 1) = first :: idsFrom (first + 2) n := by
  have hstep : ∀ j, first + UInt32.ofNat (2 * (j + 1)) = first + 2 + UInt32.ofNat (2 * j) := by
    intro j
    rw [Nat.mul_add, Nat.add_comm, UInt32.ofNat_add, ← UInt32.add_assoc]
    rfl
  have hzero : first + UInt32.ofNat (2 * 0) = first := UInt32.add_zero first
  unfold idsFrom
  rw [List.range_succ_eq_map, List.map_cons, List.map_map, hzero]
  congr 1
  apply List.map_congr_left
  intro j hj
  exact hstep j

theorem takenIds_eq_of_not (h : ¬ Signed server counter)
    (hcalls : ∀ call ∈ calls, call = .getNextId) :
    takenIds server counter calls = idsFrom (counter + 1) calls.length := by
  induction calls generalizing counter with
  | nil => rfl
  | cons call calls ih =>
    have hid : Signed server (counter + 1) := signed_add_one.2 h
    have hnext : ¬ Signed server (counter + 1 + 1) := by
      rw [signed_add_one, not_not]
      exact hid
    have htwo : counter + 1 + 1 + 1 = counter + 1 + 2 := UInt32.add_assoc _ _ _
    rw [hcalls call List.mem_cons_self, takenIds, IdCall.take, if_neg h, List.length_cons,
      idsFrom_succ]
    show _ :: takenIds server (counter + 1 + 1) calls = _
    rw [ih hnext fun call hcall => hcalls call (List.mem_cons_of_mem _ hcall), htwo]

theorem takenIds_eq (h : Signed server counter) (hcalls : ChannelsFirst calls) :
    takenIds server counter calls = idsFrom counter calls.length := by
  induction calls generalizing counter with
  | nil => rfl
  | cons call calls ih =>
    obtain ⟨hfirst, hrest⟩ := List.pairwise_cons.1 hcalls
    rw [List.length_cons, idsFrom_succ]
    cases call with
    | getNextId =>
      have hnext : ¬ Signed server (counter + 1) := by
        rw [signed_add_one, not_not]
        exact h
      have htwo : counter + 1 + 1 = counter + 2 := UInt32.add_assoc _ _ _
      rw [takenIds, IdCall.take, if_pos h]
      show _ :: takenIds server (counter + 1) calls = _
      rw [takenIds_eq_of_not hnext fun call hcall => hfirst call hcall rfl, htwo]
    | channelNew =>
      show _ :: takenIds server (counter + 2) calls = _
      rw [ih (signed_add_two.2 h) hrest]
      rfl

/-- after 2^31 numbers the first comes again -/
theorem idsFrom_nodup_iff (first : UInt32) (n : Nat) : (idsFrom first n).Nodup ↔ n ≤ 2 ^ 31 := by
  have hvalue : ∀ j k, first + UInt32.ofNat (2 * j) = first + UInt32.ofNat (2 * k) ↔
      j % 2 ^ 31 = k % 2 ^ 31 := by
    intro j k
    rw [UInt32.add_right_inj, ← UInt32.toNat_inj, UInt32.toNat_ofNat', UInt32.toNat_ofNat']
    omega
  unfold idsFrom
  rw [List.nodup_map_iff_inj_on List.nodup_range]
  constructor
  · intro h
    by_contra hlarge
    have hwrap := h 0 (List.mem_range.2 (by omega)) (2 ^ 31) (List.mem_range.2 (by omega))
      ((hvalue 0 (2 ^ 31)).2 (by norm_num))
    omega
  · intro h j hj k hk heq
    have hj := List.mem_range.1 hj
    have hk := List.mem_range.1 hk
    have hmod := (hvalue j k).1 heq
    omega

theorem yamuxSessionNew_signed (acceptBacklog : Nat) :
    Signed server (yamuxSessionNew acceptBacklog server).nextid := by
  cases server
  · exact (by decide : (1 : UInt32) % 2 = 1)
  · exact (by decide : (2 : UInt32) % 2 = 0)

/-- **the ids of a session** are distinct and have the parity of its side iff no channel is made
behind a call of `libp2p_yamux_get_next_id`, and there are at most 2^31 calls -/
theorem streamIds_iff {acceptBacklog : Nat}
    (h : IdRun (yamuxContextNew acceptBacklog server) calls ids ctx) :
    (ids.Nodup ∧ ∀ id ∈ ids, Signed server id) ↔ ChannelsFirst calls ∧ calls.length ≤ 2 ^ 31 := by
  have hids : ids = takenIds server (yamuxSessionNew acceptBacklog server).nextid calls := h.ids_eq.1
  have hsigned : Signed server _ := yamuxSessionNew_signed acceptBacklog
  rw [hids, takenIds_signed_iff hsigned, and_comm]
  apply and_congr_right
  intro hcalls
  rw [takenIds_eq hsigned hcalls, idsFrom_nodup_iff]

end

/-- two channels and then a message on a client's connection -/
theorem streamIds_client : ∃ ids ctx,
    IdRun (yamuxContextNew 4 false) [.channelNew, .channelNew, .getNextId] ids ctx ∧
      ids.Nodup ∧ ∀ id ∈ ids, Signed false id := by
  obtain ⟨channel, ctx, hfirst⟩ : ∃ channel ctx,
      yamuxChannelNew 0 (yamuxContextNew 4 false) = .ok (channel, ctx) := ⟨_, _, rfl⟩
  obtain ⟨channel', ctx', hsecond⟩ : ∃ channel' ctx', yamuxChannelNew 0 ctx = .ok (channel', ctx') := by
    cases hfirst
    exact ⟨_, _, rfl⟩
  have hrun := ((IdRun.start.channelNew hfirst).channelNew hsecond).getNextId
  have hfirst : ChannelsFirst [.channelNew, .channelNew, .getNextId] := by
    unfold ChannelsFirst
    decide
  exact ⟨_, _, hrun, (streamIds_iff hrun).2 ⟨hfirst, by decide⟩⟩

/-- a message and then a channel: the channel of a client gets the id 2 -/
theorem not_streamIds : ¬ ∀ (acceptBacklog : Nat) (server : Bool) (calls : List IdCall)
    (ids : List UInt32) (ctx : YamuxContext),
    IdRun (yamuxContextNew acceptBacklog server) calls ids ctx →
      ids.Nodup ∧ ∀ id ∈ ids, Signed server id := by
  intro hall
  obtain ⟨channel, ctx, hnew⟩ : ∃ channel ctx,
      yamuxChannelNew 0 (libp2pYamuxGetNextId (yamuxContextNew 4 false)).2 =
        .ok (channel, ctx) := ⟨_, _, rfl⟩
  have hrun := IdRun.start.getNextId.channelNew hnew
  have hsigned := (hall _ _ _ _ _ hrun).2 _ (List.mem_append_right _ (List.mem_singleton_self _))
  exact absurd hsigned (by decide)

end Libp2p
