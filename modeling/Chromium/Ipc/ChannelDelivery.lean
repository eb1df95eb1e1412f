import Chromium.Ipc.ChannelMessages

/-!
# Every message is dispatched once

`ProcessIncomingMessages` dispatches the messages whose bytes came, each with its descriptors, and keeps what is behind
them, however the bytes are cut into reads.
-/

namespace Chromium.Ipc

open List (append_assoc append_nil length_append map_nil nil_append)
open Option (bind_some map_some)

variable {mode : Mode} {fdPipe : Bool} {ms : List IpcMessage} {bytes : List UInt8} {W : List ℤ} {P : List (List ℤ)}

namespace Mode

/-- **A hello message brings a server the second pipe**: its one descriptor, where there is no second pipe yet. -/
def Introduced (mode : Mode) (fdPipe : Bool) (ms : List IpcMessage) : Prop :=
  mode.usesReadWrite = true → mode.isServer = true → ∀ before m after, ms = before ++ m :: after → m.isHello = true →
    m.fds.length = 1 ∧ mode.after fdPipe before = false

theorem Introduced.tail {m : IpcMessage} (h : Introduced mode fdPipe (m :: ms)) :
    Introduced mode (mode.next fdPipe m) ms := by
  intro hmode hserver before m' after hms hhello
  exact h hmode hserver (m :: before) m' after (by rw [hms, List.cons_append]) hhello

theorem Introduced.append {done : List IpcMessage} (h : Introduced mode fdPipe (done ++ ms)) :
    Introduced mode (mode.after fdPipe done) ms := by
  induction done generalizing fdPipe with
  | nil => exact h
  | cons m done ih => exact ih h.tail

end Mode

namespace Channel

/-- The channel is one of this mode, with its second pipe and what waits in it. -/
structure Has (c : Channel) (mode : Mode) (fdPipe : Bool) (P : List (List ℤ)) : Prop where
  usesReadWrite_eq : c.usesReadWrite = mode.usesReadWrite
  isServer_eq : c.isServer = mode.isServer
  fdPipe_eq : c.fdPipe = fdPipe
  fdPipeSets_eq : c.fdPipeSets = P

variable {c : Channel} {m : IpcMessage}

theorem Has.readsOnlyBytes (h : c.Has mode fdPipe P) : c.readsOnlyBytes = (mode.usesReadWrite && fdPipe) := by
  rw [Channel.readsOnlyBytes, h.usesReadWrite_eq, h.fdPipe_eq]

/-- **A message finds its descriptors**: they came beside the bytes, or wait first in the second pipe. -/
theorem receiveFds_of_arrived (h : c.Has mode fdPipe
      ((if (mode.usesReadWrite && fdPipe) = true ∧ m.fds ≠ [] then [m.fds] else []) ++ P))
    (hoverflow : c.readsOnlyBytes = true → c.inputOverflowFds = [])
    (hW : (mode.usesReadWrite && fdPipe) = true → W = []) :
    ∃ c', (if ((if mode.usesReadWrite && fdPipe then [] else m.fds) ++ W).length < m.fds.length then
        c.receiveFds ((if mode.usesReadWrite && fdPipe then [] else m.fds) ++ W)
        else (c, (if mode.usesReadWrite && fdPipe then [] else m.fds) ++ W)) = (c', m.fds ++ W) ∧
      c'.Has mode fdPipe P := by
  obtain ⟨hmode, hserver, hpipe, hsets⟩ := h
  have honly : c.readsOnlyBytes = (mode.usesReadWrite && fdPipe) := by rw [readsOnlyBytes, hmode, hpipe]
  by_cases hrw : (mode.usesReadWrite && fdPipe) = true
  · rw [if_pos hrw, hW hrw, append_nil, append_nil]
    by_cases hfds : m.fds = []
    · rw [if_neg (by rw [hfds]; exact lt_irrefl _), hfds]
      rw [if_neg (fun h => h.2 hfds)] at hsets
      exact ⟨c, rfl, ⟨hmode, hserver, hpipe, hsets⟩⟩
    · rw [if_pos (show ([] : List ℤ).length < m.fds.length from List.length_pos_iff.2 hfds)]
      rw [if_pos ⟨hrw, hfds⟩, List.singleton_append] at hsets
      have hno := hoverflow (honly.trans hrw)
      refine ⟨{ c with fdPipeSets := P }, ?_, ⟨hmode, hserver, hpipe, rfl⟩⟩
      rw [receiveFds, honly, hrw, hsets]
      dsimp only
      rw [if_neg hfds, if_pos hno]
  · rw [if_neg hrw, if_neg (by rw [length_append]; omega)]
    rw [if_neg (fun h => hrw h.1), nil_append] at hsets
    exact ⟨c, rfl, ⟨hmode, hserver, hpipe, hsets⟩⟩

/-- **Passed on, a message is the call of the listener.**  A hello message brings a server the second pipe. -/
theorem dispatch_encode (h : c.Has mode fdPipe P) (hhello : mode.Introduced fdPipe (m :: ms)) :
    ∃ c', c.dispatch m.encode m.fds = (c', m.call) ∧ c'.Has mode (mode.next fdPipe m) P := by
  obtain ⟨hmode, hserver, hpipe, hsets⟩ := h
  rw [dispatch, m.isHelloMessage_encode, IpcMessage.call, hmode, hserver]
  by_cases his : m.isHello = true
  · rw [if_pos his, if_pos his]
    by_cases hrw : (mode.usesReadWrite && mode.isServer) = true
    · obtain ⟨hmode', hserver'⟩ := Bool.and_eq_true_iff.1 hrw
      obtain ⟨hone, -⟩ := hhello hmode' hserver' [] m ms rfl his
      have hfds : m.fds ≠ [] := List.ne_nil_of_length_pos (by omega)
      have hnext : mode.next fdPipe m = true := by rw [Mode.next, hrw, his, Bool.and_true, Bool.or_true]
      rw [if_pos hrw]
      exact ⟨_, rfl, ⟨rfl, rfl, (decide_eq_true hfds).trans hnext.symm, hsets⟩⟩
    · have hnext : mode.next fdPipe m = fdPipe := by
        rw [Mode.next, eq_false_of_ne_true hrw, Bool.false_and, Bool.or_false]
      rw [if_neg hrw, hnext]
      exact ⟨_, rfl, ⟨hmode, hserver, hpipe, hsets⟩⟩
  · have hnext : mode.next fdPipe m = fdPipe := by
      rw [Mode.next, eq_false_of_ne_true his, Bool.and_false, Bool.or_false]
    rw [if_neg his, if_neg his, hnext]
    exact ⟨_, rfl, ⟨hmode, hserver, hpipe, hsets⟩⟩

/-- **One turn of the loop** takes the next message with its descriptors. -/
theorem dispatchMessages_succ (turns : ℕ) (p : List UInt8) (calls : List Call)
    (h : c.Has mode fdPipe
      ((if (mode.usesReadWrite && fdPipe) = true ∧ m.fds ≠ [] then [m.fds] else []) ++ P))
    (hhello : mode.Introduced fdPipe (m :: ms)) (hoverflow : c.readsOnlyBytes = true → c.inputOverflowFds = [])
    (hW : (mode.usesReadWrite && fdPipe) = true → W = []) :
    ∃ c' : Channel,
      c.dispatchMessages (turns + 1) (m.encode ++ p) ((if mode.usesReadWrite && fdPipe then [] else m.fds) ++ W) calls =
        c'.dispatchMessages turns p W (calls ++ [m.call]) ∧
      c'.Has mode (mode.next fdPipe m) P ∧ c'.inputOverflowFds = W := by
  obtain ⟨c₁, hreceive, hc₁⟩ := receiveFds_of_arrived h hoverflow hW
  obtain ⟨c₂, hdispatch, hc₂⟩ := dispatch_encode hc₁ hhello
  have hfit : ¬((m.fds ++ W).length < m.fds.length ∨ kMaxDescriptorsPerMessage < m.fds.length) := by
    have hle := m.fds_le
    rw [length_append]
    omega
  refine ⟨{ c₂ with inputOverflowFds := W }, ?_, ⟨hc₂.1, hc₂.2, hc₂.3, hc₂.4⟩, rfl⟩
  rw [dispatchMessages, m.findNext_encode_append]
  dsimp only
  rw [List.take_left' rfl, List.drop_left' rfl, m.numFds_encode, hreceive]
  dsimp only
  rw [if_neg hfit, List.take_left' rfl, List.drop_left' rfl, hdispatch]

/-- **The loop dispatches the messages that are complete**, and leaves what came behind them. -/
theorem dispatchMessages_of_arrived {turns : ℕ} (calls : List Call) (h : c.Has mode fdPipe P)
    (hhello : mode.Introduced fdPipe ms) (harrived : mode.Arrived fdPipe ms bytes W P)
    (hoverflow : c.readsOnlyBytes = true → c.inputOverflowFds = []) (hturns : bytes.length ≤ turns) :
    ∃ c' W' P', c.dispatchMessages turns bytes W calls =
        some (c', incomplete ms bytes, W', calls ++ (complete ms bytes).map IpcMessage.call) ∧
      c'.Has mode (mode.after fdPipe (complete ms bytes)) P' ∧
      W = mode.wireOf fdPipe (complete ms bytes) ++ W' ∧ P = mode.pipeOf fdPipe (complete ms bytes) ++ P' := by
  induction turns generalizing c fdPipe ms bytes W P calls with
  | zero =>
    have hnil : bytes = [] := List.length_eq_zero_iff.1 (by omega)
    have hcomplete : complete ms [] = [] ∧ incomplete ms [] = [] := complete_nil ms
    rw [hnil, hcomplete.1, hcomplete.2, map_nil, append_nil]
    exact ⟨c, W, P, rfl, h, rfl, rfl⟩
  | succ turns ih =>
    cases ms with
    | nil =>
      have hnil : bytes = [] := List.prefix_nil.1 harrived.bytes_start
      rw [hnil, dispatchMessages]
      rw [show complete ([] : List IpcMessage) [] = [] from rfl, map_nil, append_nil]
      exact ⟨c, W, P, rfl, h, rfl, rfl⟩
    | cons m ms =>
      rcases exists_append_or_prefix harrived.bytes_start with ⟨rest, rfl, -⟩ | ⟨hstart, hlt⟩
      · obtain ⟨W', P', rfl, rfl, htail⟩ := harrived.tail
        have hW : (mode.usesReadWrite && fdPipe) = true → W' = [] := by
          intro hrw
          have hnil := harrived.wire_eq_nil (Bool.and_eq_true_iff.1 hrw).1 (Bool.and_eq_true_iff.1 hrw).2
          exact (List.append_eq_nil_iff.1 hnil).2
        obtain ⟨c₁, hturn, hc₁, hfds₁⟩ := dispatchMessages_succ turns rest calls h hhello hoverflow hW
        have hoverflow₁ : c₁.readsOnlyBytes = true → c₁.inputOverflowFds = [] := by
          intro honly
          rw [hc₁.readsOnlyBytes, Bool.and_eq_true_iff] at honly
          rw [hfds₁]
          exact htail.wire_eq_nil honly.1 honly.2
        have hshort : rest.length ≤ turns := by
          have hlen := m.length_encode
          have hsize : headerSize = 20 := rfl
          rw [length_append] at hturns
          omega
        obtain ⟨c', W'', P'', hrun, hc', hW', hP'⟩ := ih (calls ++ [m.call]) hc₁ hhello.tail htail hoverflow₁ hshort
        rw [complete_cons_of_append, incomplete_cons_of_append]
        refine ⟨c', W'', P'', ?_, hc', ?_, ?_⟩
        · rw [hturn, hrun, List.map_cons, append_assoc, List.singleton_append]
        · rw [hW', Mode.wireOf, append_assoc]
        · rw [hP', Mode.pipeOf, append_assoc]
      · rw [dispatchMessages, m.findNext_of_prefix hstart hlt, complete, incomplete, if_neg (not_le.2 hlt),
          if_neg (not_le.2 hlt), map_nil, append_nil]
        exact ⟨c, W, P, rfl, h, rfl, rfl⟩

/-- **Between two reads** the channel holds the bytes of the incomplete message, and the descriptors that came and are not
those of a complete one. -/
structure Follows (c : Channel) (mode : Mode) (fdPipe : Bool) (ms : List IpcMessage) (bytes : List UInt8) (W : List ℤ)
    (P : List (List ℤ)) : Prop where
  usesReadWrite_eq : c.usesReadWrite = mode.usesReadWrite
  isServer_eq : c.isServer = mode.isServer
  fdPipe_eq : c.fdPipe = mode.after fdPipe (complete ms bytes)
  inputOverflowBuf_eq : c.inputOverflowBuf = incomplete ms bytes
  inputOverflowFds_eq : W = mode.wireOf fdPipe (complete ms bytes) ++ c.inputOverflowFds
  fdPipeSets_eq : P = mode.pipeOf fdPipe (complete ms bytes) ++ c.fdPipeSets

/-- **A read is taken in**: all its descriptors are there, and with it the buffer holds no more than a message may have. -/
structure Fits (r : Read) (held : List UInt8) : Prop where
  isTruncated_eq : r.isTruncated = false
  length_le : held = [] ∨ held.length + r.bytes.length ≤ kMaximumMessageSize

theorem processRead_eq (c : Channel) (r : Read) :
    ∃ wireFds, wireFds = (if c.readsOnlyBytes then [] else r.wireFds) ∧
      c.processRead r = if r.isTruncated = true ∧ wireFds ≠ [] then none
        else if c.inputOverflowBuf ≠ [] ∧ kMaximumMessageSize - r.bytes.length < c.inputOverflowBuf.length then none
        else
          (dispatchMessages (c.inputOverflowBuf ++ r.bytes).length { c with fdPipeSets := c.fdPipeSets ++ r.pipedFds }
              (c.inputOverflowBuf ++ r.bytes) (c.inputOverflowFds ++ wireFds) []).bind fun left =>
            if left.2.1 = [] ∧ left.2.2.1 ≠ [] then none
            else some ({ left.1 with inputOverflowBuf := left.2.1, inputOverflowFds := left.2.2.1 }, left.2.2.2) :=
  ⟨_, rfl, rfl⟩

theorem processRead_of_follows {r : Read} (h : c.Follows mode fdPipe ms bytes W P) (hhello : mode.Introduced fdPipe ms)
    (hbytes : bytes <+: encodeAll ms)
    (harrived : mode.Arrived fdPipe ms (bytes ++ r.bytes) (W ++ r.wireFds) (P ++ r.pipedFds))
    (hfits : Fits r (incomplete ms bytes)) :
    ∃ c' calls, c.processRead r = some (c', calls) ∧
      c'.Follows mode fdPipe ms (bytes ++ r.bytes) (W ++ r.wireFds) (P ++ r.pipedFds) ∧
      (complete ms (bytes ++ r.bytes)).map IpcMessage.call = (complete ms bytes).map IpcMessage.call ++ calls := by
  obtain ⟨hmode, hserver, hpipe, hbuf, hfds, hsets⟩ := h
  obtain ⟨rest, hrest⟩ := complete_prefix ms bytes
  have hsplit := encodeAll_complete_append ms hbytes
  -- What is done stays as it is: the rest are the messages behind it, with the bytes held and those of the read.
  generalize complete ms bytes = done at hpipe hfds hsets hrest hsplit ⊢
  generalize incomplete ms bytes = held at hbuf hfits hsplit
  obtain rfl : done ++ rest = ms := hrest
  subst hbuf
  rw [hsplit, append_assoc] at harrived ⊢
  obtain ⟨W', P', hW, hP, harrived'⟩ := harrived.append
  rw [hfds, append_assoc, List.append_right_inj] at hW
  rw [hsets, append_assoc, List.append_right_inj] at hP
  have honly : c.readsOnlyBytes = true → W' = [] := by
    intro honly
    rw [readsOnlyBytes, hmode, hpipe, Bool.and_eq_true_iff] at honly
    exact harrived'.wire_eq_nil honly.1 honly.2
  obtain ⟨wireFds, hread, heq⟩ := c.processRead_eq r
  have hwire : c.inputOverflowFds ++ wireFds = W' := by
    by_cases hb : c.readsOnlyBytes = true
    · have hnil := honly hb
      rw [← hW] at hnil
      rw [hread, if_pos hb, ← hW, (List.append_eq_nil_iff.1 hnil).2]
    · rw [hread, if_neg hb, hW]
  have hoverflow : c.readsOnlyBytes = true → c.inputOverflowFds = [] := by
    intro hb
    have hnil := honly hb
    rw [← hW] at hnil
    exact (List.append_eq_nil_iff.1 hnil).1
  have hguard : ¬(c.inputOverflowBuf ≠ [] ∧ kMaximumMessageSize - r.bytes.length < c.inputOverflowBuf.length) := by
    rintro ⟨hne, hlt⟩
    have hle := hfits.length_le.resolve_left hne
    omega
  have hhas : ({ c with fdPipeSets := c.fdPipeSets ++ r.pipedFds } : Channel).Has mode (mode.after fdPipe done) P' :=
    ⟨hmode, hserver, hpipe, hP⟩
  obtain ⟨c', W'', P'', hrun, hc', hW', hP'⟩ := dispatchMessages_of_arrived [] hhas hhello.append harrived' hoverflow
    le_rfl
  have hidle : ¬(incomplete rest (c.inputOverflowBuf ++ r.bytes) = [] ∧ W'' ≠ []) := by
    rintro ⟨hnil, hne⟩
    have heq := harrived'.wire_of_complete hnil
    rw [hW', List.append_right_eq_self] at heq
    exact hne heq
  refine ⟨{ c' with inputOverflowBuf := incomplete rest (c.inputOverflowBuf ++ r.bytes), inputOverflowFds := W'' },
    (complete rest (c.inputOverflowBuf ++ r.bytes)).map IpcMessage.call, ?_, ⟨hc'.1, hc'.2, ?_, ?_, ?_, ?_⟩, ?_⟩
  · have htruncated : ¬(r.isTruncated = true ∧ wireFds ≠ []) := by
      rw [hfits.isTruncated_eq]
      exact fun h => Bool.false_ne_true h.1
    rw [heq, if_neg htruncated, if_neg hguard, hwire, hrun, bind_some]
    dsimp only
    rw [if_neg hidle]
    rfl
  · rw [hc'.fdPipe_eq, complete_encodeAll_append, Mode.after_append]
  · rw [incomplete_encodeAll_append]
  · rw [complete_encodeAll_append, Mode.wireOf_append, hfds, append_assoc, append_assoc, hW, hW']
  · rw [complete_encodeAll_append, Mode.pipeOf_append, hsets, append_assoc, append_assoc, hP, hP',
      hc'.fdPipeSets_eq]
  · rw [complete_encodeAll_append, List.map_append]

end Channel

/-! ## Runs -/

def bytesOf (reads : List Read) : List UInt8 := reads.flatMap Read.bytes

def wireFdsOf (reads : List Read) : List ℤ := reads.flatMap Read.wireFds

def pipedFdsOf (reads : List Read) : List (List ℤ) := reads.flatMap Read.pipedFds

/-- **The reads deliver the messages**: after each of them what came is in order, and each is taken in. -/
structure Delivered (mode : Mode) (fdPipe : Bool) (ms : List IpcMessage) (reads : List Read) : Prop where
  introduced : mode.Introduced fdPipe ms
  arrived : ∀ before, before <+: reads → mode.Arrived fdPipe ms (bytesOf before) (wireFdsOf before) (pipedFdsOf before)
  fits : ∀ before r, before ++ [r] <+: reads → Channel.Fits r (incomplete ms (bytesOf before))

namespace Channel

variable {c : Channel} {reads : List Read}

def start (mode : Mode) (fdPipe : Bool) : Channel :=
  { usesReadWrite := mode.usesReadWrite, isServer := mode.isServer, fdPipe := fdPipe, fdPipeSets := [],
    inputOverflowBuf := [], inputOverflowFds := [] }

theorem processIncomingMessages_append (c : Channel) (reads reads' : List Read) :
    c.processIncomingMessages (reads ++ reads') = (c.processIncomingMessages reads).bind fun (c, calls) =>
        (c.processIncomingMessages reads').map fun (c, calls') => (c, calls ++ calls') := by
  induction reads generalizing c with
  | nil =>
    rw [nil_append, processIncomingMessages, bind_some]
    exact Option.map_id'.symm
  | cons r reads ih =>
    rw [List.cons_append, processIncomingMessages, processIncomingMessages]
    cases c.processRead r with
    | none => rfl
    | some read =>
      obtain ⟨c', calls⟩ := read
      rw [bind_some, bind_some]
      dsimp only
      rw [ih]
      cases c'.processIncomingMessages reads with
      | none => rfl
      | some rest =>
        rw [bind_some, map_some, bind_some, Option.map_map]
        congr 1
        funext last
        exact congrArg (Prod.mk _) (append_assoc _ _ _).symm

/-- **After all reads** the calls are those of the complete messages. -/
theorem processIncomingMessages_of_delivered (h : Delivered mode fdPipe ms reads) :
    ∃ c, (start mode fdPipe).processIncomingMessages reads = some (c, (complete ms (bytesOf reads)).map IpcMessage.call) ∧
      c.Follows mode fdPipe ms (bytesOf reads) (wireFdsOf reads) (pipedFdsOf reads) := by
  obtain ⟨hintroduced, harrived, hfits⟩ := h
  induction reads using List.reverseRecOn with
  | nil =>
    obtain ⟨hcomplete, hincomplete⟩ := complete_nil ms
    refine ⟨start mode fdPipe, ?_, rfl, rfl, ?_, ?_, ?_, ?_⟩
    · rw [show bytesOf [] = [] from rfl, hcomplete]
      rfl
    · rw [show bytesOf [] = [] from rfl, hcomplete]
      rfl
    · exact hincomplete.symm
    · rw [show bytesOf [] = [] from rfl, hcomplete]
      rfl
    · rw [show bytesOf [] = [] from rfl, hcomplete]
      rfl
  | append_singleton reads r ih =>
    have hstart : reads <+: reads ++ [r] := List.prefix_append _ _
    obtain ⟨c, hrun, hfollows⟩ := ih (fun before hbefore => harrived before (hbefore.trans hstart))
      (fun before r' hbefore => hfits before r' (hbefore.trans hstart))
    have hlast := harrived (reads ++ [r]) List.prefix_rfl
    have hbytes : bytesOf (reads ++ [r]) = bytesOf reads ++ r.bytes := by
      rw [bytesOf, List.flatMap_append, List.flatMap_singleton, ← bytesOf]
    have hwire : wireFdsOf (reads ++ [r]) = wireFdsOf reads ++ r.wireFds := by
      rw [wireFdsOf, List.flatMap_append, List.flatMap_singleton, ← wireFdsOf]
    have hpiped : pipedFdsOf (reads ++ [r]) = pipedFdsOf reads ++ r.pipedFds := by
      rw [pipedFdsOf, List.flatMap_append, List.flatMap_singleton, ← pipedFdsOf]
    rw [hbytes, hwire, hpiped] at hlast ⊢
    obtain ⟨c', calls, hread, hfollows', hcalls⟩ := processRead_of_follows hfollows hintroduced
      (harrived reads hstart).bytes_start hlast (hfits reads r List.prefix_rfl)
    refine ⟨c', ?_, hfollows'⟩
    rw [processIncomingMessages_append, hrun, bind_some]
    dsimp only
    rw [processIncomingMessages, hread, bind_some, hcalls]
    dsimp only
    rw [processIncomingMessages, map_some, map_some]
    dsimp only
    rw [append_nil]

/-- **The messages of the stream are dispatched in order, each once and with its own descriptors**, and no error is
reported.  The overflow buffers hold the bytes of the incomplete last message, and the descriptors that came beside the bytes
and are not those of a dispatched message; with a second pipe the others wait in it.  Once all bytes came, all messages are
dispatched. -/
theorem processIncomingMessages_spec (mode : Mode) (fdPipe : Bool) (ms : List IpcMessage) (reads : List Read)
    (h : Delivered mode fdPipe ms reads) :
    ∃ c, (start mode fdPipe).processIncomingMessages reads = some (c, (complete ms (bytesOf reads)).map IpcMessage.call) ∧
      c.inputOverflowBuf = incomplete ms (bytesOf reads) ∧
      bytesOf reads = encodeAll (complete ms (bytesOf reads)) ++ c.inputOverflowBuf ∧
      wireFdsOf reads = mode.wireOf fdPipe (complete ms (bytesOf reads)) ++ c.inputOverflowFds ∧
      mode.wireOf c.fdPipe (begun ms (bytesOf reads)) <+: c.inputOverflowFds ∧
      pipedFdsOf reads = mode.pipeOf fdPipe (complete ms (bytesOf reads)) ++ c.fdPipeSets ∧
      complete ms (bytesOf reads) <+: ms ∧
      (bytesOf reads = encodeAll ms →
        complete ms (bytesOf reads) = ms ∧ c.inputOverflowBuf = [] ∧ c.inputOverflowFds = []) := by
  obtain ⟨c, hrun, hfollows⟩ := processIncomingMessages_of_delivered h
  have hlast := h.arrived reads List.prefix_rfl
  have hsplit := encodeAll_complete_append ms hlast.bytes_start
  refine ⟨c, hrun, hfollows.inputOverflowBuf_eq, ?_, hfollows.inputOverflowFds_eq, ?_, hfollows.fdPipeSets_eq,
    complete_prefix _ _, ?_⟩
  · rw [hfollows.inputOverflowBuf_eq, ← hsplit]
  · have hwire := hlast.wire_of_begun
    rwa [Mode.wireOf_append, hfollows.inputOverflowFds_eq, List.prefix_append_right_inj, ← hfollows.fdPipe_eq] at hwire
  · intro hall
    obtain ⟨hcomplete, hincomplete⟩ := complete_encodeAll ms
    rw [← hall] at hcomplete hincomplete
    have hfds := hlast.wire_of_complete hincomplete
    rw [hfollows.inputOverflowFds_eq, List.append_right_eq_self] at hfds
    exact ⟨hcomplete, hfollows.inputOverflowBuf_eq.trans hincomplete, hfds⟩

/-! ## Small messages, and messages that are too big -/

theorem length_incomplete (h : bytes <+: encodeAll ms) :
    incomplete ms bytes = [] ∨ ∃ m ∈ ms, (incomplete ms bytes).length < m.encode.length := by
  induction ms generalizing bytes with
  | nil => exact .inl (List.prefix_nil.1 h)
  | cons m ms ih =>
    rcases exists_append_or_prefix h with ⟨rest, rfl, hrest⟩ | ⟨-, hlt⟩
    · rw [incomplete_cons_of_append]
      rcases ih hrest with hnil | ⟨m', hm', hlt⟩
      · exact .inl hnil
      · exact .inr ⟨m', List.mem_cons_of_mem _ hm', hlt⟩
    · rw [incomplete, if_neg (not_le.2 hlt)]
      exact .inr ⟨m, List.mem_cons_self, hlt⟩

/-- **Where a message leaves room for a read, every read of the stream is taken in.** -/
theorem fits_of_small {r : Read} (hsmall : ∀ m ∈ ms, m.encode.length + kReadBufferSize ≤ kMaximumMessageSize + 1)
    (hbytes : bytes <+: encodeAll ms) (hread : r.bytes.length ≤ kReadBufferSize) (htruncated : r.isTruncated = false) :
    Fits r (incomplete ms bytes) := by
  refine ⟨htruncated, ?_⟩
  rcases length_incomplete hbytes with hnil | ⟨m, hm, hlt⟩
  · exact .inl hnil
  · have hle := hsmall m hm
    exact .inr (by omega)

theorem processRead_of_large {r : Read} (hne : c.inputOverflowBuf ≠ [])
    (hlarge : kMaximumMessageSize < c.inputOverflowBuf.length + r.bytes.length) : c.processRead r = none := by
  have hguard : c.inputOverflowBuf ≠ [] ∧ kMaximumMessageSize - r.bytes.length < c.inputOverflowBuf.length := by
    have hpos := List.length_pos_iff.2 hne
    exact ⟨hne, by omega⟩
  obtain ⟨wireFds, -, heq⟩ := c.processRead_eq r
  rw [heq, if_pos hguard, ite_self]

theorem inputOverflowBuf_of_prefix {c c' : Channel} {r : Read} {m : IpcMessage} {calls : List Call}
    (hstart : c.inputOverflowBuf ++ r.bytes <+: m.encode)
    (hlt : (c.inputOverflowBuf ++ r.bytes).length < m.encode.length) (h : c.processRead r = some (c', calls)) :
    c'.inputOverflowBuf = c.inputOverflowBuf ++ r.bytes := by
  have hloop : ∀ turns (c₁ : Channel) fds, c₁.dispatchMessages turns (c.inputOverflowBuf ++ r.bytes) fds [] =
      some (c₁, c.inputOverflowBuf ++ r.bytes, fds, []) := by
    intro turns c₁ fds
    cases turns with
    | zero => rfl
    | succ turns => rw [dispatchMessages, m.findNext_of_prefix hstart hlt]
  obtain ⟨wireFds, -, heq⟩ := c.processRead_eq r
  rw [heq] at h
  split at h
  · cases h
  · split at h
    · cases h
    · rw [hloop, bind_some] at h
      dsimp only at h
      split at h
      · cases h
      · have hc := (Prod.ext_iff.1 (Option.some.inj h)).1
        exact (congrArg Channel.inputOverflowBuf hc).symm

/-- **A message that is too big ends in an error, however its bytes are cut.** -/
theorem processIncomingMessages_of_large {m : IpcMessage} (hlarge : kMaximumMessageSize < m.encode.length)
    (hbytes : c.inputOverflowBuf ++ bytesOf reads = m.encode) (hlt : c.inputOverflowBuf.length < m.encode.length)
    (hreads : ∀ r ∈ reads, r.bytes.length ≤ kReadBufferSize) : c.processIncomingMessages reads = none := by
  induction reads generalizing c with
  | nil =>
    rw [show bytesOf [] = [] from rfl, append_nil] at hbytes
    exact absurd hlt (by rw [hbytes]; exact lt_irrefl _)
  | cons r reads ih =>
    have hread := hreads r List.mem_cons_self
    have hsize : kReadBufferSize < kMaximumMessageSize := by decide
    rw [show bytesOf (r :: reads) = r.bytes ++ bytesOf reads from rfl, ← append_assoc] at hbytes
    have hstart : c.inputOverflowBuf ++ r.bytes <+: m.encode := ⟨_, hbytes⟩
    rw [processIncomingMessages]
    cases hrun : c.processRead r with
    | none => rfl
    | some read =>
      obtain ⟨c', calls⟩ := read
      rcases Nat.lt_or_ge (c.inputOverflowBuf ++ r.bytes).length m.encode.length with hshort | hall
      · have hbuf := inputOverflowBuf_of_prefix hstart hshort hrun
        rw [bind_some]
        dsimp only
        rw [ih (by rw [hbuf, hbytes]) (by rw [hbuf]; exact hshort) (fun r' hr' => hreads r' (List.mem_cons_of_mem _ hr'))]
        rfl
      · rw [length_append] at hall
        have hne : c.inputOverflowBuf ≠ [] := List.ne_nil_of_length_pos (by omega)
        rw [processRead_of_large hne (by omega)] at hrun
        cases hrun

def plainMessage : IpcMessage :=
  { routing := 1, type := 2, flags := 0, pad := 0, payload := [], fds := [], routing_lt := by decide,
    type_lt := by decide, payload_lt := by decide, fds_le := by decide }

def fdMessage : IpcMessage :=
  { routing := 1, type := 3, flags := 0, pad := 0, payload := [5], fds := [7], routing_lt := by decide,
    type_lt := by decide, payload_lt := by decide, fds_le := by decide }

/-- The descriptor came with the first half of its message. -/
theorem processIncomingMessages_halves : ∃ c, (start ⟨false, true⟩ false).processIncomingMessages
        [⟨fdMessage.encode.take 10, [7], false, []⟩, ⟨fdMessage.encode.drop 10, [], false, []⟩] =
      some (c, [.onMessageReceived fdMessage.encode [7]]) := by
  have harrived : ∀ before,
      before <+: [⟨fdMessage.encode.take 10, [7], false, []⟩, ⟨fdMessage.encode.drop 10, [], false, []⟩] →
      Mode.Arrived ⟨false, true⟩ false [fdMessage] (bytesOf before) (wireFdsOf before) (pipedFdsOf before) := by
    intro before hbefore
    rw [← List.mem_inits, List.inits_cons, List.inits_cons, List.inits] at hbefore
    rcases List.mem_cons.mp hbefore with rfl | hmem
    · exact ⟨by decide, by decide, by decide, by decide, by decide, by decide⟩
    · obtain ⟨tail, htail, rfl⟩ := List.mem_map.mp hmem
      rcases List.mem_cons.mp htail with rfl | hmem'
      · exact ⟨by decide, by decide, by decide, by decide, by decide, by decide⟩
      · rw [List.map_singleton, List.mem_singleton] at hmem'
        rw [hmem']
        exact ⟨by decide, by decide, by decide, by decide, by decide, by decide⟩
  have hdelivered : Delivered ⟨false, true⟩ false [fdMessage]
      [⟨fdMessage.encode.take 10, [7], false, []⟩, ⟨fdMessage.encode.drop 10, [], false, []⟩] := by
    refine ⟨fun hmode => absurd hmode Bool.false_ne_true, harrived, ?_⟩
    intro before r hbefore
    have hmem := hbefore.subset (List.mem_append_right before (List.mem_singleton_self r))
    have hbytes := (harrived before ((List.prefix_append before [r]).trans hbefore)).bytes_start
    have hsmall : ∀ m ∈ [fdMessage], m.encode.length + kReadBufferSize ≤ kMaximumMessageSize + 1 := by
      intro m hm
      rw [List.mem_singleton.mp hm]
      decide
    have hread : r.bytes.length ≤ kReadBufferSize ∧ r.isTruncated = false := by
      rcases List.mem_cons.mp hmem with rfl | hmem'
      · exact ⟨by decide, rfl⟩
      · rw [List.mem_singleton.mp hmem']
        exact ⟨by decide, rfl⟩
    exact fits_of_small hsmall hbytes hread.1 hread.2
  obtain ⟨c, hrun, -⟩ := processIncomingMessages_spec ⟨false, true⟩ false [fdMessage] _ hdelivered
  exact ⟨c, hrun⟩

theorem bytesOf_map (bytes : List UInt8) : bytesOf (bytes.map fun b => ⟨[b], [], false, []⟩) = bytes := by
  rw [bytesOf, List.flatMap_map]
  exact List.flatMap_singleton' bytes

theorem processIncomingMessages_map_of_large {m : IpcMessage} (hlarge : kMaximumMessageSize < m.encode.length) :
    (start mode fdPipe).processIncomingMessages (m.encode.map fun b => ⟨[b], [], false, []⟩) = none := by
  refine processIncomingMessages_of_large hlarge ?_ (lt_of_le_of_lt (Nat.zero_le _) hlarge) ?_
  · rw [bytesOf_map]
    exact nil_append _
  · intro r hr
    obtain ⟨b, -, rfl⟩ := List.mem_map.1 hr
    exact show 1 ≤ kReadBufferSize by decide

def bigMessage : IpcMessage :=
  { routing := 1, type := 2, flags := 0, pad := 0, payload := List.replicate (kMaximumMessageSize - 1) 0, fds := [],
    routing_lt := by decide, type_lt := by decide, payload_lt := by rw [List.length_replicate]; decide,
    fds_le := by decide }

theorem length_bigMessage : bigMessage.encode.length = headerSize + (kMaximumMessageSize - 1) :=
  bigMessage.length_encode.trans (congrArg (headerSize + ·) List.length_replicate)

/-- **A descriptor that comes early, and a message that is too big with its header, are errors.** -/
theorem not_processIncomingMessages : (start ⟨false, true⟩ false).processIncomingMessages
        [⟨plainMessage.encode, [7], false, []⟩, ⟨fdMessage.encode, [], false, []⟩] = none ∧
      (start ⟨false, true⟩ false).processIncomingMessages (bigMessage.encode.map fun b => ⟨[b], [], false, []⟩) = none := by
  -- Not decided on the message itself: its bytes are too many.
  have hlarge : kMaximumMessageSize < headerSize + (kMaximumMessageSize - 1) := by decide
  exact ⟨by decide, processIncomingMessages_map_of_large (lt_of_lt_of_eq hlarge length_bigMessage.symm)⟩

end Channel

end Chromium.Ipc
