import Mathlib.Data.List.Chain
import Pscdrv.Core.Flat
import Pscdrv.Records.Access

/-! # Atomic access to a `PSC`

    What the documentation promises of the lock: a record reads one message, and the header and the
    body of a message it queues stay together. The routines that hold a named guard keep the promise
    among themselves. `read_si` and `write_so` hold nothing, and keep it as long as nobody comes
    between two of their calls.

        sendbuf   … ─ header t ─ body t ─ header u ─ body u ─ …          named guards
                  … ─ header t ─ header u ─ body t ─ …                   write_so -/

namespace Pscdrv.Access

open Libevent Threads Run Tcp

section Model

variable {τ E : Type} [Libevent E]

/-- Block `id` held `m` at the start, or a received message brought it. -/
def Held (s₀ s : Psc E) (id : UInt16) (m : List UInt8) : Prop :=
  m = (dataOf s₀ id).mem ∨ ∃ sid, (sid, RxEv.store id m) ∈ s.rxlog

/-- Next to a header is the body that belongs to it. -/
def Adjacent (log : List (Append τ)) : Prop :=
  log.IsChain fun a b => a.part = .header → b.part = .body ∧ b.thread = a.thread

/-- Every record stored what it finds when the block holds one message all the time. -/
def OneMessage (s₀ : Psc E) (x : Shared τ E) : Prop :=
  ∀ r ∈ x.reads, ∃ d : DBuffer E, Held s₀ x.psc r.id d.mem ∧ r.kind.value d = some r.value

/-- All the accesses so far were atomic. -/
structure Atomic (s₀ : Psc E) (x : Shared τ E) : Prop where
  reads : OneMessage s₀ x
  sends : Adjacent x.appends
  sendbuf : bytes x.psc.sendbuf = bytes s₀.sendbuf ++ (x.appends.map Append.bytes).flatten

/-- What a call appends to `sendbuf`. -/
def Call.appends : Call → Option (Guard × Part)
  | .add g part _ => some (g, part)
  | .copyoutTo g _ => some (g, .body)
  | _ => none

/-- The guard of the routine that makes a call, where its calls are told apart by it. -/
def Call.guard : Call → Option Guard
  | .add g _ _ => some g
  | .copyoutTo g _ => some g
  | .dataCopyout _ (.si _ _) _ => some .temporary
  | _ => none

/-- Whether a header waits for its body after a call. -/
def Call.after (isOpen : Bool) : (c : Call) → Reply c → Bool
  | .add _ .header _, ok => ok || isOpen
  | .add _ .body _, ok => !ok && isOpen
  | .copyoutTo _ _, _ => false
  | _, _ => isOpen

/-- The block still has the length that `read_si` has found. -/
def SameLength (x : Shared τ E) : Call → Prop
  | .dataCopyout id (.si _ _) len => len = clip (dataOf x.psc id).size
  | _ => True

/-- Nobody comes between two calls of `read_si` or `write_so`. -/
structure Undisturbed (t : τ) (c : Call) (x : Shared τ E) : Prop where
  si : SameLength x c
  /-- a header that waits for its body, and an append of another thread: neither is `write_so`'s -/
  so : ∀ a ∈ c.appends, ∀ e ∈ x.appends.getLast?, e.part = .header → e.thread ≠ t →
    a.1 = .named ∧ e.guard = .named

instance decidableSameLength (x : Shared τ E) : ∀ c, Decidable (SameLength x c)
  | .dataCopyout id (.si _ _) len => inferInstanceAs (Decidable (len = clip (dataOf x.psc id).size))
  | .dataCopyout _ (.wfReal ..) _ | .dataCopyout _ (.wfBytes ..) _ | .dataCopyout _ (.binary ..) _
  | .arrive _ | .report _ | .hasSession | .inputLength | .decode _ | .setWatermark | .isConnected
  | .dataSize _ _ | .setRecTimestamp _ | .getSend _ | .isRegistered _ | .sendSize _ | .queued _
  | .sendbufLength | .expand _ | .add _ _ _ | .copyoutTo _ _ | .markQueued _ | .assign _ _ =>
    .isTrue trivial

instance decidableUndisturbed [DecidableEq τ] (t : τ) (c : Call) (x : Shared τ E) :
    Decidable (Undisturbed t c x) :=
  decidable_of_iff (SameLength x c ∧ ∀ a ∈ c.appends, ∀ e ∈ x.appends.getLast?,
      e.part = .header → e.thread ≠ t → a.1 = .named ∧ e.guard = .named)
    ⟨fun h => ⟨h.1, h.2⟩, fun h => ⟨h.si, h.so⟩⟩

end Model

/-! ### What a call does -/

section Steps

variable {τ E : Type} [Libevent E] {cfg : Config} {t : τ}

/-- What is left of the receive side by a step. -/
structure Keeps (s s' : Psc E) : Prop where
  rxlog : ∀ e ∈ s.rxlog, e ∈ s'.rxlog
  data : ∀ id, (dataOf s' id).mem = (dataOf s id).mem ∨
    ∃ sid, (sid, RxEv.store id (dataOf s' id).mem) ∈ s'.rxlog

theorem Keeps.same {s s' : Psc E} (hlog : s'.rxlog = s.rxlog)
    (hblocks : s'.recvBlocks = s.recvBlocks) : Keeps s s' := by
  refine ⟨fun e he => hlog ▸ he, fun id => .inl ?_⟩
  rw [dataOf, dataOf, hblocks]

theorem Held.keeps {s₀ s s' : Psc E} (h : Keeps s s') {id : UInt16} {m : List UInt8}
    (hm : Held s₀ s id m) : Held s₀ s' id m := by
  rcases hm with rfl | ⟨sid, hsid⟩
  · exact .inl rfl
  · exact .inr ⟨sid, h.rxlog _ hsid⟩

/-- A change of one block. -/
theorem Keeps.modify {s s' : Psc E} {k : UInt16} {f : Block E → Block E}
    (hlog : ∀ e ∈ s.rxlog, e ∈ s'.rxlog) (hblocks : s'.recvBlocks = s.recvBlocks.modify k f)
    (hf : ∀ b, (f b).data.mem = b.data.mem ∨
      ∃ sid, (sid, RxEv.store k (f b).data.mem) ∈ s'.rxlog) : Keeps s s' := by
  refine ⟨hlog, fun id => ?_⟩
  unfold dataOf
  rw [hblocks]
  by_cases hid : id = k
  · subst hid
    rw [BlockMap.modify_self]
    cases s.recvBlocks id with
    | none => exact .inl rfl
    | some b => exact hf b
  · rw [BlockMap.modify_ne _ _ hid]
    exact .inl rfl

theorem decodeHead_keeps (env : RxEnv) (s : Psc E) (ses : Session E) (hbuf : List UInt8) (buf : E) :
    Keeps s (decodeHead env s ses hbuf buf) ∧
      (decodeHead env s ses hbuf buf).sendbuf = s.sendbuf := by
  unfold decodeHead
  dsimp only
  split_ifs
  · exact ⟨.modify (fun e he => List.mem_append_left _ he) rfl fun _ => .inl rfl, rfl⟩
  · exact ⟨.modify (fun e he => List.mem_append_left _ he) rfl fun _ => .inl rfl, rfl⟩
  · exact ⟨⟨fun e he => List.mem_append_left _ he, fun id => .inl rfl⟩, rfl⟩
  · exact ⟨⟨fun e he => List.mem_append_left _ he, fun id => .inl rfl⟩, rfl⟩

theorem decodeBody_keeps (env : RxEnv) (s : Psc E) (ses : Session E) :
    Keeps s (decodeBody env s ses) ∧ (decodeBody env s ses).sendbuf = s.sendbuf := by
  unfold decodeBody
  cases s.bodyblock with
  | none => exact ⟨.same rfl rfl, rfl⟩
  | some k =>
    refine ⟨.modify (fun e he => List.mem_append_left _ he) rfl fun b => .inr ⟨ses.id, ?_⟩, rfl⟩
    rw [Block.requestScan_data]
    exact List.mem_append_right _ List.mem_cons_self

/-- A stage of `recvdata` brings the body of a message, or leaves the data as they are. -/
theorem decode_keeps (env : RxEnv) (s : Psc E) :
    Keeps s (decode env s).1 ∧ (decode env s).1.sendbuf = s.sendbuf := by
  unfold decode
  split
  · exact ⟨.same rfl rfl, rfl⟩
  · rename_i ses hses
    split_ifs
    · exact ⟨.same rfl rfl, rfl⟩
    · unfold framingError startReconnect
      dsimp only
      split_ifs
      · exact ⟨.same rfl rfl, rfl⟩
      · exact ⟨.same rfl rfl, rfl⟩
    · unfold decodeNext
      split_ifs
      · exact decodeBody_keeps env s ses
      · exact decodeHead_keeps env s ses _ _
    · exact ⟨.same rfl rfl, rfl⟩

theorem report_keeps (ev : BevEvent) (s : Psc E) :
    (report ev s).1.rxlog = s.rxlog ∧ (report ev s).1.recvBlocks = s.recvBlocks ∧
      (report ev s).1.sendbuf = s.sendbuf := by
  have hstate : ∀ t, (Tcp.eventcb s ev).state? = some t →
      t.rxlog = s.rxlog ∧ t.recvBlocks = s.recvBlocks ∧ t.sendbuf = s.sendbuf := by
    intro t ht
    rcases eventcb_state ht with ⟨-, rfl⟩ | rfl | ⟨u, hu, msg, rfl⟩
    · exact ⟨rfl, rfl, rfl⟩
    · exact ⟨rfl, rfl, rfl⟩
    · rw [startReconnect_state hu]
      exact ⟨rfl, rfl, rfl⟩
  unfold report
  cases hr : Tcp.eventcb s ev with
  | ok t => exact hstate t (by rw [hr, Res.state?_ok])
  | throw e t => exact hstate t (by rw [hr, Res.state?_throw])
  | abort c => exact ⟨rfl, rfl, rfl⟩

theorem stores_psc (x : Shared τ E) (id : UInt16) (kind : ReadKind) (v : Option Value) :
    (x.stores id kind v).psc = x.psc ∧ (x.stores id kind v).appends = x.appends := by
  cases v <;> exact ⟨rfl, rfl⟩

/-- STEP: the receive side. -/
theorem perform_keeps (cfg : Config) (t : τ) (c : Call) (x : Shared τ E) :
    Keeps x.psc (perform cfg t c x).1.psc := by
  cases c with
  | arrive chunk =>
    change Keeps x.psc (arrived x.psc chunk)
    unfold arrived
    split <;> exact .same rfl rfl
  | report ev =>
    obtain ⟨hlog, hblocks, -⟩ := report_keeps ev x.psc
    exact .same hlog hblocks
  | decode env => exact (decode_keeps env x.psc).1
  | setWatermark =>
    simp only [perform]
    split <;> exact .same rfl rfl
  | dataSize id kind =>
    simp only [perform]
    rw [(stores_psc x id kind _).1]
    exact .same rfl rfl
  | dataCopyout id kind len =>
    simp only [perform]
    rw [(stores_psc x id kind _).1]
    exact .same rfl rfl
  | add g part l =>
    simp only [perform]
    split <;> exact .same rfl rfl
  | _ => exact .same rfl rfl

/-- What a call does to `sendbuf`. -/
inductive Sendbuf (t : τ) (c : Call) (x : Shared τ E) (y : Shared τ E × Reply c) : Prop
  | same (appends : y.1.appends = x.appends) (sendbuf : bytes y.1.psc.sendbuf = bytes x.psc.sendbuf)
      (after : ∀ isOpen, c.after isOpen y.2 = isOpen)
  | appended (g : Guard) (part : Part) (l : List UInt8) (call : c.appends = some (g, part))
      (appends : y.1.appends = x.appends ++ [⟨t, g, part, l⟩])
      (sendbuf : bytes y.1.psc.sendbuf = bytes x.psc.sendbuf ++ l)
      (after : ∀ isOpen, c.after isOpen y.2 = decide (part = .header))

/-- STEP: the transmit side. -/
theorem perform_sendbuf (cfg : Config) (t : τ) (c : Call) (x : Shared τ E) :
    Sendbuf t c x (perform cfg t c x) := by
  cases c with
  | arrive chunk =>
    refine .same rfl ?_ fun _ => rfl
    change bytes (arrived x.psc chunk).sendbuf = _
    unfold arrived
    split <;> rfl
  | report ev => exact .same rfl (congrArg bytes (report_keeps ev x.psc).2.2) fun _ => rfl
  | decode env =>
    exact .same rfl (congrArg bytes (decode_keeps env x.psc).2) fun _ => rfl
  | setWatermark =>
    refine .same rfl ?_ fun _ => rfl
    simp only [perform]
    split <;> rfl
  | dataSize id kind =>
    simp only [perform]
    obtain ⟨hpsc, happ⟩ := stores_psc x id kind (kind.onSize (dataOf x.psc id).size)
    exact .same happ (by rw [hpsc]) fun _ => rfl
  | dataCopyout id kind len =>
    simp only [perform]
    obtain ⟨hpsc, happ⟩ := stores_psc x id kind
      ((kind.copyout (dataOf x.psc id) len).bind fun r => kind.onCopyout len r)
    exact .same happ (by rw [hpsc]) fun _ => rfl
  | expand n => exact .same rfl (bytes_expand _ _) fun _ => rfl
  | add g part l =>
    simp only [perform]
    cases hadd : (Libevent.add x.psc.sendbuf l).2 with
    | true =>
      have hbytes := bytes_add_ok hadd
      refine .appended g part l rfl ?_ hbytes fun isOpen => ?_
      · simp [Shared.appended, hbytes]
      · cases part <;> rfl
    | false =>
      refine .same rfl (add_fail _ _ hadd) fun isOpen => ?_
      cases part <;> rfl
  | copyoutTo g id =>
    obtain ⟨l, hl⟩ := addAll_extends
      ((sendDataOf x.psc id).strides.map (Stride.read (sendDataOf x.psc id).mem)) x.psc.sendbuf
    have hbytes : bytes ((sendDataOf x.psc id).copyoutEv x.psc.sendbuf).1 =
        bytes x.psc.sendbuf ++ l := hl
    refine .appended g .body l rfl ?_ hbytes fun _ => rfl
    simp [perform, Shared.appended, hbytes]
  | _ => exact .same rfl rfl fun _ => rfl

/-- STEP: a record stores nothing, or what it finds in the block as it is now. -/
inductive Reads (x y : Shared τ E) : Prop
  | same (reads : y.reads = x.reads)
  | stored (id : UInt16) (kind : ReadKind) (v : Value)
      (value : kind.value (dataOf x.psc id) = some v) (reads : y.reads = x.reads ++ [⟨id, kind, v⟩])

theorem stores_reads {x : Shared τ E} {id : UInt16} {kind : ReadKind} {w : Option Value}
    (h : ∀ v, w = some v → kind.value (dataOf x.psc id) = some v) :
    Reads x (x.stores id kind w) := by
  cases w with
  | none => exact .same rfl
  | some v => exact .stored id kind v (h v rfl) rfl

/-- `copyout_shape()` finds the value of the block, if the length is still right. -/
theorem ReadKind.value_of_copyout {d : DBuffer E} {kind : ReadKind} {len : ℕ} {v : Value}
    (hlen : ∀ offset val, kind = .si offset val → len = clip d.size)
    (h : (kind.copyout d len).bind (fun r => kind.onCopyout len r) = some v) :
    kind.value d = some v := by
  obtain ⟨r, hr, hv⟩ := Option.bind_eq_some_iff.mp h
  cases kind with
  | si offset val =>
    obtain rfl := hlen offset val rfl
    have hin : ¬clip d.size < offset := by
      intro hout
      rw [ReadKind.onCopyout, if_pos hout] at hv
      cases hv
    have hsize : ReadKind.onSize d.size (.si offset val) = none := if_neg hin
    rw [ReadKind.value_eq hsize hr]
    exact hv
  | _ =>
    rw [ReadKind.value_eq rfl hr]
    exact hv

theorem perform_reads (cfg : Config) {c : Call} {x : Shared τ E} (h : Undisturbed t c x) :
    Reads x (perform cfg t c x).1 := by
  cases c with
  | dataSize id kind =>
    refine stores_reads fun v hv => ?_
    rw [ReadKind.value, hv, Option.some_or]
  | dataCopyout id kind len =>
    refine stores_reads fun v hv => ReadKind.value_of_copyout (fun offset val hkind => ?_) hv
    subst hkind
    exact h.si
  | add g part l =>
    simp only [perform]
    split <;> exact .same rfl
  | _ => exact .same rfl

/-- STEP: a call that meets `Undisturbed` keeps the accesses atomic. -/
theorem Atomic.perform {s₀ : Psc E} {c : Call} {x : Shared τ E} (h : Atomic s₀ x)
    (hok : Undisturbed t c x) (hdata : ∀ id, Held s₀ x.psc id (dataOf x.psc id).mem)
    (hsends : ∀ g part l, c.appends = some (g, part) → Adjacent (x.appends ++ [⟨t, g, part, l⟩])) :
    Atomic s₀ (perform cfg t c x).1 := by
  have hkeeps := perform_keeps cfg t c x
  have hold : ∀ r ∈ x.reads, ∃ d : DBuffer E, Held s₀ (Access.perform cfg t c x).1.psc r.id d.mem ∧
      r.kind.value d = some r.value := by
    intro r hr
    obtain ⟨d, hd, hv⟩ := h.reads r hr
    exact ⟨d, hd.keeps hkeeps, hv⟩
  refine ⟨?_, ?_, ?_⟩
  · unfold OneMessage
    cases perform_reads cfg hok with
    | same hreads => rwa [hreads]
    | stored id kind v hvalue hreads =>
      rw [hreads, List.forall_mem_append, List.forall_mem_singleton]
      exact ⟨hold, dataOf x.psc id, (hdata id).keeps hkeeps, hvalue⟩
  · cases perform_sendbuf cfg t c x with
    | same happ hbytes hsame => exact happ ▸ h.sends
    | appended g part l hc happ hbytes hopen => exact happ ▸ hsends g part l hc
  · cases perform_sendbuf cfg t c x with
    | same happ hbytes hsame => rw [hbytes, happ, h.sendbuf]
    | appended g part l hc happ hbytes hopen =>
      rw [hbytes, happ, h.sendbuf, List.map_append, List.flatten_append, List.append_assoc]
      simp

end Steps

/-! ### The header and the body -/

theorem appends_guard {c : Call} {g : Guard} {part : Part} (h : c.appends = some (g, part)) :
    g ∈ c.guard := by
  cases c <;> cases h <;> rfl

/-- A program that takes and gives back `psc->lock` alone, and whose calls carry the guard `g`. It
    appends under the lock if the guard is named, a header only when none waits for its body, and
    does not give the lock back while one does. -/
def Sends (g : Guard) : (Lock → ℕ) → Bool → Prog → (Lock → ℕ) → Prop
  | held, isOpen, .done, after => isOpen = false ∧ held = after
  | _, _, .abort _, _ => True
  | held, isOpen, .lock k next, after => k = .psc ∧ Sends g (raise held k) isOpen next after
  | held, isOpen, .unlock k next, after =>
    0 < held k ∧ isOpen = false ∧ Sends g (lower held k) isOpen next after
  | held, isOpen, .call c next, after =>
    (∀ h ∈ c.guard, h = g) ∧
    (∀ a ∈ c.appends, (g = .named → 0 < held .psc) ∧ (a.2 = .header → isOpen = false)) ∧
    ∀ r, Sends g held (c.after isOpen r) (next r) after

section Programs

variable {g : Guard} {held mid after : Lock → ℕ} {id : UInt16}

theorem Sends.andThen {isOpen : Bool} {p q : Prog} (hp : Sends g held isOpen p mid)
    (hq : Sends g mid false q after) : Sends g held isOpen (p.andThen q) after := by
  induction p generalizing held isOpen with
  | done =>
    obtain ⟨rfl, rfl⟩ := hp
    exact hq
  | abort c => trivial
  | lock k next ih => exact ⟨hp.1, ih hp.2⟩
  | unlock k next ih => exact ⟨hp.1, hp.2.1, ih hp.2.2⟩
  | call c next ih => exact ⟨hp.1, hp.2.1, fun r => ih r (hp.2.2 r)⟩

theorem Sends.brackets {isOpen : Bool} {p : Prog} (h : Sends g held isOpen p after) :
    p.Brackets held after := by
  induction p generalizing held isOpen with
  | done => exact h.2
  | abort c => trivial
  | lock k next ih => exact ih h.2
  | unlock k next ih => exact ⟨h.1, ih h.2.2⟩
  | call c next ih => exact fun r => ih r (h.2.2 r)

theorem Sends.locks {isOpen : Bool} {p : Prog} (h : Sends g held isOpen p after) {k : Lock}
    (hk : p.MayLock k) : k = .psc := by
  induction p generalizing held isOpen with
  | done => cases hk
  | abort c => cases hk
  | lock l next ih =>
    rcases hk with rfl | hk
    · exact h.1
    · exact ih h.2 hk
  | unlock l next ih => exact ih h.2.2 hk
  | call c next ih =>
    obtain ⟨r, hr⟩ := hk
    exact ih r (h.2.2 r) hr

/-- A call that appends nothing. -/
theorem Sends.quiet {isOpen : Bool} {c : Call} {next : Reply c → Prog} (hg : ∀ h ∈ c.guard, h = g)
    (hc : c.appends = none) (hafter : ∀ r, c.after isOpen r = isOpen)
    (h : ∀ r, Sends g held isOpen (next r) after) : Sends g held isOpen (.call c next) after := by
  refine ⟨hg, fun a ha => ?_, fun r => ?_⟩
  · rw [hc] at ha
    cases ha
  · rw [hafter]
    exact h r

theorem Sends.done : Sends g held false .done held := ⟨rfl, rfl⟩

theorem timestamp_sends : Sends g held false (timestamp id) held :=
  .quiet nofun rfl (fun _ => rfl) fun _ => .done

theorem ifConnected_sends {p : Prog} (h : Sends g held false p held) :
    Sends g held false (ifConnected p) held := by
  refine .quiet nofun rfl (fun _ => rfl) fun c => ?_
  split
  · exact h
  · exact .done

theorem copyoutShape_sends {kind : ReadKind} {len : ℕ} {next : List UInt8 × ℕ → Prog}
    (hg : ∀ h ∈ Call.guard (.dataCopyout id kind len), h = g)
    (h : ∀ r, Sends g held false (next r) held) :
    Sends g held false (copyoutShape id kind len next) held := by
  refine .quiet hg rfl (fun _ => rfl) fun r => ?_
  cases r with
  | none => trivial
  | some r => exact h r

/-- A routine starts and ends without the lock; under a named guard the body runs with it. -/
theorem guarded_sends {p : Prog}
    (h : ∀ held, (g = .named → 0 < held .psc) → Sends g held false p held) :
    Sends g held false (guarded g p) held := by
  cases g with
  | named =>
    have hheld : 0 < raise held .psc .psc := by
      rw [raise_self]
      exact Nat.succ_pos _
    have hbody : Sends .named (raise held .psc) false p (raise held .psc) := h _ fun _ => hheld
    exact ⟨rfl, hbody.andThen ⟨hheld, rfl, rfl, lower_raise held .psc⟩⟩
  | temporary =>
    refine ⟨rfl, ?_, rfl, ?_⟩
    · rw [raise_self]
      exact Nat.succ_pos _
    · rw [lower_raise]
      exact h held nofun

/-- The rest of the routine goes on with a header that waits, or without one if there is no
    connection. -/
theorem queueHeader_sends {n : UInt32} {rest : Prog} (hlock : g = .named → 0 < held .psc)
    (h : ∀ isOpen, Sends g held isOpen rest held) :
    Sends g held false (queueHeader g id n rest) held := by
  refine .quiet nofun rfl (fun _ => rfl) fun connected => ?_
  cases connected with
  | false => exact h false
  | true =>
    refine .quiet nofun rfl (fun _ => rfl) fun queued => ?_
    cases queued with
    | true => exact .done
    | false =>
      refine .quiet nofun rfl (fun _ => rfl) fun full => ?_
      cases full with
      | true => exact .done
      | false =>
        refine .quiet nofun rfl (fun _ => rfl) fun room => ?_
        cases room with
        | false => exact .done
        | true =>
          refine ⟨?_, ?_, fun ok => ?_⟩
          · rintro h ⟨⟩
            rfl
          · rintro a ⟨⟩
            exact ⟨hlock, fun _ => rfl⟩
          · cases ok with
            | true => exact h true
            | false => trivial

/-- The header and then the body, which is appended whole or not at all. -/
theorem queueHeader_body_sends {n : UInt32} {c : Call} {next : Reply c → Prog}
    (hlock : g = .named → 0 < held .psc) (hguard : c.guard = some g)
    (hbody : c.appends = some (g, .body))
    (h : ∀ isOpen r, Sends g held (c.after isOpen r) (next r) held) :
    Sends g held false (queueHeader g id n (.call c next)) held := by
  refine queueHeader_sends hlock fun isOpen => ⟨?_, ?_, h isOpen⟩
  · intro h hh
    rw [hguard] at hh
    exact (Option.some.inj hh).symm
  · intro a ha
    rw [hbody] at ha
    cases ha
    exact ⟨hlock, nofun⟩

theorem markQueued_sends {rest : Prog} (h : Sends g held false rest held) :
    Sends g held false (.call (.markQueued id) fun _ => rest) held :=
  .quiet nofun rfl (fun _ => rfl) fun _ => h

theorem queueSendRaw_sends {buf : RawBuf} {rest : Prog} (hlock : g = .named → 0 < held .psc)
    (h : Sends g held false rest held) : Sends g held false (queueSendRaw g id buf rest) held := by
  refine queueHeader_body_sends hlock rfl rfl fun isOpen ok => ?_
  cases ok with
  | true => exact markQueued_sends h
  | false => trivial

theorem queueSendBlock_sends {rest : Prog} (hlock : g = .named → 0 < held .psc)
    (h : Sends g held false rest held) : Sends g held false (queueSendBlock g id rest) held := by
  refine .quiet nofun rfl (fun _ => rfl) fun size => ?_
  refine queueHeader_body_sends hlock rfl rfl fun isOpen ok => ?_
  cases ok with
  | true => exact markQueued_sends h
  | false => exact .done

theorem recvLoop_sends {env : RxEnv} {fuel : ℕ} : Sends g held false (recvLoop env fuel) held := by
  induction fuel with
  | zero => trivial
  | succ fuel ih =>
    refine .quiet nofun rfl (fun _ => rfl) fun enough => ?_
    cases enough with
    | false => exact .quiet nofun rfl (fun _ => rfl) fun _ => .done
    | true =>
      refine .quiet nofun rfl (fun _ => rfl) fun next => ?_
      cases next with
      | more => exact ih
      | finished => exact .done
      | failed c => trivial

/-- The guard of a read routine. -/
def ReadKind.guard : ReadKind → Guard
  | .si _ _ => .temporary
  | .wfReal .. | .wfBytes .. | .binary .. => .named

/-- The guard of a routine. -/
def Job.guard : Job → Guard
  | .read _ kind => kind.guard
  | .writeSo _ _ => .temporary
  | .recvdata .. | .eventcb _ | .writeWf _ _ | .writeMsg _ _ | .writeLoSendBlock _ => .named

theorem read_sends {kind : ReadKind} : Sends kind.guard held false (kind.routine id) held := by
  cases kind with
  | si offset val =>
    refine guarded_sends fun held _ => ifConnected_sends ?_
    refine .quiet nofun rfl (fun _ => rfl) fun size => ?_
    split
    · exact timestamp_sends
    · refine copyoutShape_sends ?_ fun _ => timestamp_sends
      rintro h ⟨⟩
      rfl
  | wfReal offset esize eskip nelm =>
    exact guarded_sends fun held _ => ifConnected_sends <|
      copyoutShape_sends nofun fun _ => timestamp_sends
  | wfBytes offset nelm =>
    exact guarded_sends fun held _ => ifConnected_sends <|
      copyoutShape_sends nofun fun _ => timestamp_sends
  | binary offset esize =>
    refine guarded_sends fun held _ => ?_
    refine .quiet nofun rfl (fun _ => rfl) fun _ => .quiet nofun rfl (fun _ => rfl) fun size => ?_
    split
    · exact .done
    · refine copyoutShape_sends nofun fun r => ?_
      split
      · exact timestamp_sends
      · exact .done

/-- Every routine sends as its guard allows. -/
theorem job_sends (j : Job) (held : Lock → ℕ) : Sends j.guard held false j.prog held := by
  cases j with
  | recvdata chunk env =>
    refine guarded_sends fun held _ => ?_
    refine .quiet nofun rfl (fun _ => rfl) fun n => .quiet nofun rfl (fun _ => rfl) fun c => ?_
    cases c with
    | true => exact recvLoop_sends
    | false => trivial
  | eventcb ev =>
    refine guarded_sends fun held _ => ?_
    refine .quiet nofun rfl (fun _ => rfl) fun next => ?_
    cases next with
    | more => exact .done
    | finished => exact .done
    | failed c => trivial
  | read id kind => exact read_sends
  | writeSo id val =>
    exact guarded_sends fun held hlock => ifConnected_sends <| queueSendRaw_sends hlock <|
      .quiet nofun rfl (fun _ => rfl) fun _ => .done
  | writeWf id buf =>
    exact guarded_sends fun held hlock => ifConnected_sends <| queueSendRaw_sends hlock .done
  | writeMsg bid buf =>
    exact guarded_sends fun held hlock => ifConnected_sends <|
      .quiet nofun rfl (fun _ => rfl) fun _ => queueSendRaw_sends hlock .done
  | writeLoSendBlock bid =>
    refine guarded_sends fun held hlock => ?_
    refine .quiet nofun rfl (fun _ => rfl) fun known => ?_
    cases known with
    | true => exact queueSendBlock_sends hlock .done
    | false => exact .done

end Programs

theorem jobs_prog {τ : Type} [DecidableEq τ] {event t : τ} {j : Job} {p : Prog}
    (h : jobs event t j = some p) : j.prog = p := by
  unfold jobs at h
  split at h
  · exact Option.some.inj (Option.ite_none_right_eq_some.mp h).2
  · exact Option.some.inj (Option.ite_none_right_eq_some.mp h).2
  · exact Option.some.inj h

section Interleavings

variable {τ E : Type} [Libevent E] [DecidableEq τ] {cfg : Config} {t u : τ}

/-- The last append is a header of `t`. -/
def isOpen (t : τ) (log : List (Append τ)) : Bool :=
  log.getLast?.any fun e => decide (e.thread = t) && decide (e.part = .header)

theorem isOpen_iff {log : List (Append τ)} :
    isOpen t log = true ↔ ∃ e, log.getLast? = some e ∧ e.thread = t ∧ e.part = .header := by
  unfold isOpen
  cases log.getLast? with
  | none => simp
  | some e => simp

@[simp] theorem isOpen_append (log : List (Append τ)) (e : Append τ) :
    isOpen t (log ++ [e]) = (decide (e.thread = t) && decide (e.part = .header)) := by
  simp [isOpen]

/-- Where a thread is: it sends on as its guard `g` allows, and a header of its own that waits has
    the guard `g` and is under the lock if `g` is named. -/
def Sending (t : τ) (held : Lock → ℕ) (p : Prog) (x : Shared τ E) : Prop :=
  ∃ g, Sends g held (isOpen t x.appends) p (fun _ => 0) ∧
    ∀ e, x.appends.getLast? = some e → e.thread = t → e.part = .header →
      e.guard = g ∧ (g = .named → 0 < held .psc)

/-- An append meets no header of another thread that waits. -/
theorem not_open {held held' : Lock → ℕ} {c : Call} {next : Reply c → Prog} {q : Prog}
    {x : Shared τ E} {g : Guard} {part : Part} (htu : t ≠ u)
    (hexcl : held .psc = 0 ∨ held' .psc = 0) (hok : Undisturbed t c x)
    (hc : c.appends = some (g, part)) (ht : Sending t held (.call c next) x)
    (hu : Sending u held' q x) : isOpen u x.appends = false := by
  rw [Bool.eq_false_iff]
  intro hopen
  obtain ⟨e, hlast, hthread, hpart⟩ := isOpen_iff.mp hopen
  obtain ⟨gt, hsends, -⟩ := ht
  obtain ⟨gu, -, hwait⟩ := hu
  obtain rfl : g = gt := hsends.1 g (appends_guard hc)
  have hlockt := (hsends.2.1 _ hc).1
  obtain ⟨rfl, hlocku⟩ := hwait e hlast hthread hpart
  obtain ⟨hnamed, hnamed'⟩ := hok.so _ hc e hlast hpart (hthread ▸ htu.symm)
  have hheld : 0 < held .psc := hlockt hnamed
  have hheld' : 0 < held' .psc := hlocku hnamed'
  omega

/-- The routines of all the threads, with `Sending` at every point, are a proof outline. -/
theorem sending_outline (cfg : Config) (event : τ) :
    Outline (perform (E := E) cfg) (jobs event) Undisturbed Sending where
  start := by
    intro t j p held x hp hidle
    obtain ⟨g, ⟨hclosed, hheld⟩, -⟩ := hidle
    have hprog : j.prog = p := jobs_prog hp
    refine ⟨j.guard, ?_, fun e hlast ht hpart => ?_⟩
    · rw [hclosed, ← hprog, ← hheld]
      exact job_sends j held
    · rw [isOpen_iff.mpr ⟨e, hlast, ht, hpart⟩] at hclosed
      cases hclosed
  lock := by
    rintro t held k next x ⟨g, ⟨-, hsends⟩, hwait⟩
    refine ⟨g, hsends, fun e hlast ht hpart => ?_⟩
    obtain ⟨hg, hheld⟩ := hwait e hlast ht hpart
    refine ⟨hg, fun hn => ?_⟩
    exact Nat.lt_of_lt_of_le (hheld hn) (le_raise held k .psc)
  unlock := by
    rintro t held k next x ⟨g, ⟨hheld, hclosed, hsends⟩, hwait⟩
    refine ⟨hheld, g, hsends, fun e hlast ht hpart => ?_⟩
    rw [isOpen_iff.mpr ⟨e, hlast, ht, hpart⟩] at hclosed
    cases hclosed
  call := by
    rintro t held c next x hok ⟨g, ⟨hguard, hcall, hnext⟩, hwait⟩
    have hafter := hnext (perform cfg t c x).2
    cases perform_sendbuf cfg t c x with
    | same happ hbytes hsame =>
      rw [hsame, ← happ] at hafter
      exact ⟨g, hafter, happ ▸ hwait⟩
    | appended g' part l hc happ hbytes hopen =>
      obtain rfl : g' = g := hguard g' (appends_guard hc)
      have hlock := (hcall _ hc).1
      rw [hopen] at hafter
      refine ⟨g', ?_, fun e hlast ht hpart => ?_⟩
      · rw [happ]
        simpa using hafter
      · rw [happ, List.getLast?_concat, Option.some.injEq] at hlast
        subst hlast
        exact ⟨rfl, hlock⟩
  free := by
    intro t u held held' c next q x htu hexcl hok ht hu
    cases perform_sendbuf cfg t c x with
    | same happ hbytes hsame =>
      unfold Sending
      rw [happ]
      exact hu
    | appended g part l hc happ hbytes hopen =>
      have hclosed := not_open htu (hexcl .psc) hok hc ht hu
      obtain ⟨gu, hsends, hwait⟩ := hu
      refine ⟨gu, ?_, fun e hlast he hpart => ?_⟩
      · rw [happ, isOpen_append, decide_eq_false htu, Bool.false_and]
        rwa [hclosed] at hsends
      · rw [happ, List.getLast?_concat, Option.some.injEq] at hlast
        subst hlast
        exact absurd he htu

/-- Next to a header that waits comes the body of the same thread. -/
theorem adjacent_append {owner : Lock → Option (τ × ℕ)} {code : τ → Prog} {c : Call}
    {next : Reply c → Prog} {x : Shared τ E} {g : Guard} {part : Part} {l : List UInt8}
    (hA : ∀ t, Sending t (depth owner t) (code t) x) (hcode : code t = .call c next)
    (hok : Undisturbed t c x) (hc : c.appends = some (g, part)) (h : Adjacent x.appends) :
    Adjacent (x.appends ++ [⟨t, g, part, l⟩]) := by
  have ht := hA t
  rw [hcode] at ht
  refine List.isChain_append.mpr ⟨h, List.isChain_singleton _, fun e hlast b hb hpart => ?_⟩
  cases hb
  change part = .body ∧ t = e.thread
  have hopen : isOpen e.thread x.appends = true := isOpen_iff.mpr ⟨e, hlast, rfl, hpart⟩
  by_cases hte : t = e.thread
  · obtain ⟨g', hsends, -⟩ := ht
    refine ⟨?_, hte⟩
    cases part with
    | body => rfl
    | header =>
      have hclosed := (hsends.2.1 _ hc).2 rfl
      rw [hte, hopen] at hclosed
      cases hclosed
  · have hexcl : depth owner t .psc = 0 ∨ depth owner e.thread .psc = 0 := by
      rcases Nat.eq_zero_or_pos (depth owner t .psc) with hzero | hpos
      · exact .inl hzero
      · exact .inr (Nat.eq_zero_of_not_pos fun hpos' => hte (depth_exclusive hpos hpos'))
    rw [not_open hte hexcl hok hc ht (hA e.thread)] at hopen
    cases hopen

/-- What holds in every state of a run from `s₀`. -/
structure Proper (s₀ : Psc E) (s : Sys τ Lock Call Reply (Shared τ E)) : Prop where
  annotated : Annotated Sending s
  atomic : Atomic s₀ s.shared
  data : ∀ id, Held s₀ s.shared.psc id (dataOf s.shared.psc id).mem

theorem proper_init (s₀ : Psc E) : Proper s₀ (Sys.init (τ := τ) ⟨s₀, [], []⟩) where
  annotated _ := ⟨.named, .done, nofun⟩
  atomic := ⟨nofun, List.isChain_nil, (List.append_nil _).symm⟩
  data _ := .inl rfl

theorem proper_step {event : τ} {s₀ : Psc E} {s s' : Sys τ Lock Call Reply (Shared τ E)}
    {a : Act τ Job} (h : Proper s₀ s) (hok : Meets Undisturbed s a)
    (hs : step (perform cfg) (jobs event) s a = some s') : Proper s₀ s' := by
  have hannotated := (sending_outline cfg event).step h.annotated hok hs
  cases a with
  | start t j =>
    obtain ⟨-, p, -, rfl⟩ := start_cases hs
    exact ⟨hannotated, h.atomic, h.data⟩
  | turn t =>
    cases turn_cases hs with
    | abort c code => exact ⟨hannotated, h.atomic, h.data⟩
    | lock k next o code free => exact ⟨hannotated, h.atomic, h.data⟩
    | unlock k next code => exact ⟨hannotated, h.atomic, h.data⟩
    | call c next code =>
      have hc := hok c next code
      refine ⟨hannotated, ?_, fun id => ?_⟩
      · exact h.atomic.perform hc h.data fun g part l happ =>
          adjacent_append h.annotated code hc happ h.atomic.sends
      · have hkeeps := perform_keeps cfg t c s.shared
        rcases hkeeps.data id with hsame | hnew
        · change Held s₀ _ id (dataOf (perform cfg t c s.shared).1.psc id).mem
          rw [hsame]
          exact (h.data id).keeps hkeeps
        · exact .inr hnew

/-- CORRECT: as long as nobody comes between the calls of `read_si` and `write_so`, all the accesses
    are atomic, in every interleaving. -/
theorem accesses_atomic (cfg : Config) (event : τ) (s₀ : Psc E) (as : List (Act τ Job))
    (h : Along (step (perform cfg) (jobs event)) (Meets Undisturbed) (Sys.init ⟨s₀, [], []⟩) as) :
    Always (step (perform cfg) (jobs event)) (fun s => Atomic s₀ s.shared)
      (Sys.init ⟨s₀, [], []⟩) as :=
  always_of_along (fun _ _ _ hI hC hs => proper_step hI hC hs) (fun _ hI => hI.atomic)
    (proper_init s₀) h

/-! ### Named guards among themselves -/

/-- A routine that is started has a named guard. -/
def Named : Act τ Job → Prop
  | .start _ j => j.guard = .named
  | .turn _ => True

structure AllNamed (s : Sys τ Lock Call Reply (Shared τ E)) : Prop where
  code : ∀ t, ∃ held isOpen after, Sends .named held isOpen (s.code t) after
  appends : ∀ e ∈ s.shared.appends, e.guard = .named

omit [DecidableEq τ] in
theorem undisturbed_of_named {c : Call} {x : Shared τ E} (hc : ∀ g ∈ c.guard, g = .named)
    (hx : ∀ e ∈ x.appends, e.guard = .named) : Undisturbed t c x := by
  refine ⟨?_, fun a ha e he _ _ => ⟨hc a.1 (appends_guard ha), hx e (List.mem_of_getLast? he)⟩⟩
  cases c with
  | dataCopyout id kind len =>
    cases kind with
    | si offset val => cases hc .temporary rfl
    | _ => trivial
  | _ => trivial

theorem allNamed_step {event : τ} {s s' : Sys τ Lock Call Reply (Shared τ E)} {a : Act τ Job}
    (h : AllNamed s) (ha : Named a) (hs : step (perform cfg) (jobs event) s a = some s') :
    AllNamed s' ∧ Meets Undisturbed s a := by
  have hupdate : ∀ {t p}, (∃ held isOpen after, Sends .named held isOpen p after) →
      ∀ u, ∃ held isOpen after, Sends .named held isOpen (Function.update s.code t p u) after := by
    intro t p hp u
    rcases eq_or_ne u t with rfl | hu
    · rwa [Function.update_self]
    · rw [Function.update_of_ne hu]
      exact h.code u
  cases a with
  | start t j =>
    obtain ⟨-, p, hp, rfl⟩ := start_cases hs
    have hsends : Sends .named (fun _ => 0) false p fun _ => 0 := by
      have hj := job_sends j fun _ => 0
      rwa [ha, jobs_prog hp] at hj
    exact ⟨⟨hupdate ⟨_, _, _, hsends⟩, h.appends⟩, trivial⟩
  | turn t =>
    obtain ⟨held, isOpen, after, hsends⟩ := h.code t
    have hmeets : Meets Undisturbed s (.turn t : Act τ Job) := by
      intro c next hcode
      rw [hcode] at hsends
      exact undisturbed_of_named hsends.1 h.appends
    refine ⟨?_, hmeets⟩
    cases turn_cases hs with
    | abort c code => exact ⟨h.code, h.appends⟩
    | lock k next o code free =>
      rw [code] at hsends
      exact ⟨hupdate ⟨_, _, _, hsends.2⟩, h.appends⟩
    | unlock k next code =>
      rw [code] at hsends
      exact ⟨hupdate ⟨_, _, _, hsends.2.2⟩, h.appends⟩
    | call c next code =>
      rw [code] at hsends
      refine ⟨hupdate ⟨_, _, _, hsends.2.2 _⟩, ?_⟩
      change ∀ e ∈ (perform cfg t c s.shared).1.appends, e.guard = .named
      cases perform_sendbuf cfg t c s.shared with
      | same happ hbytes hsame => exact happ ▸ h.appends
      | appended g part l hc happ hbytes hopen =>
        rw [happ, List.forall_mem_append, List.forall_mem_singleton]
        exact ⟨h.appends, hsends.1 g (appends_guard hc)⟩

/-- CORRECT: what the documentation promises holds of the routines with a named guard, in every
    interleaving. -/
theorem named_atomic (cfg : Config) (event : τ) (s₀ : Psc E) {as : List (Act τ Job)}
    (h : ∀ a ∈ as, Named a) :
    Always (step (perform cfg) (jobs event)) (fun s => Atomic s₀ s.shared)
      (Sys.init ⟨s₀, [], []⟩) as := by
  have hmeets : Along (step (perform cfg) (jobs event)) (Meets Undisturbed)
      (Sys.init ⟨s₀, [], []⟩) as :=
    along_of_inv (I := AllNamed) (fun _ _ _ hI ha hs => allNamed_step hI ha hs)
      ⟨fun _ => ⟨fun _ => 0, false, fun _ => 0, .done⟩, nofun⟩ (along_of_mem h)
  exact always_of_along (fun _ _ _ hI hC hs => proper_step hI hC hs) (fun _ hI => hI.atomic)
    (proper_init s₀) hmeets

end Interleavings

/-! ### What goes wrong without a guard -/

/-- What `read_si` stores of one message, when the string does not begin behind its end. -/
theorem si_value {E : Type} [Libevent E] (d : DBuffer E) {offset : ℕ} (val : List UInt8)
    (h : offset < clip d.mem.length) (hsize : d.mem.length < 2 ^ 64) :
    (ReadKind.si offset val).value d = some ((Memory.overwrite val 0
      ((d.mem.drop offset).take (clip d.mem.length - offset))).set
        (clip d.mem.length - offset) 0, 0) := by
  have hclip : clip d.mem.length ≤ d.mem.length := by
    unfold clip maxStringSize
    split <;> omega
  have hnone : (ReadKind.si offset val).onSize d.size = none := by
    rw [d.size_eq]
    exact if_neg (by omega)
  have hone : Flat.wholeElements d.mem.length offset (clip d.mem.length - offset) 0 1 = [0] := by
    have hfits : offset + (clip d.mem.length - offset) ≤ d.mem.length := by omega
    simp [Flat.wholeElements, hfits]
  have hcopy : (ReadKind.si offset val).copyout d (clip d.size) =
      some ((d.mem.drop offset).take (clip d.mem.length - offset), 1) := by
    rw [ReadKind.copyout, d.size_eq, d.copyoutShape_spec 1 (by omega) (by omega) (by omega),
      Flat.copyoutShape, hone]
    simp
  rw [ReadKind.value_eq hnone hcopy, d.size_eq]
  exact if_neg (by omega)

/-- And of no bytes at all. -/
theorem si_value_nil {E : Type} [Libevent E] (d : DBuffer E) (val : List UInt8) (h : d.mem = []) :
    (ReadKind.si 0 val).value d = some ((Memory.overwrite val 0 []).set 0 0, 0) := by
  have hsize : d.size = 0 := by rw [d.size_eq, h, List.length_nil]
  have hcopy : (ReadKind.si 0 val).copyout d (clip d.size) = some ([], 0) :=
    if_pos (.inr (by rw [hsize]))
  have hnone : (ReadKind.si 0 val).onSize d.size = none := by simp [ReadKind.onSize]
  rw [ReadKind.value_eq hnone hcopy, hsize]
  rfl

section Sample

/-- Connected, with two send blocks and a receive block. -/
def upPsc : Psc Chains :=
  { Psc.init {7, 8} {5} with
    connected := true, conncount := 1, message := "Connected", nsession := 1
    session := some ⟨0, new, new, headerSize, minMaxBufSize⟩ }

/-- A message comes in. -/
def received (chunk : List UInt8) : List (Act (Fin 3) Job) :=
  .start 0 (.recvdata chunk ⟨⟨5, 0⟩, fun _ _ => 0⟩) :: List.replicate 10 (.turn 0)

/-- A message of 8 bytes, and then one of 2 bytes between `size()` and `copyout_shape()`. -/
def tornRead : List (Act (Fin 3) Job) :=
  received (header 5 8 ++ [65, 66, 67, 68, 69, 70, 71, 72]) ++
    .start 1 (.read 5 (.si 0 (List.replicate 40 122))) :: List.replicate 4 (.turn 1) ++
    received (header 5 2 ++ [97, 98]) ++ [.turn 1]

/-- Two records that queue a string. -/
def splitSend : List (Act (Fin 3) Job) :=
  .start 1 (.writeSo 7 ⟨[65], by decide⟩) :: List.replicate 8 (.turn 1) ++
    .start 2 (.writeSo 8 ⟨[66], by decide⟩) :: List.replicate 8 (.turn 2)

/-- A named guard reads one message. -/
theorem accesses_atomic_sample :
    Always (step (perform ⟨0⟩) (jobs 0)) (fun s => Atomic upPsc s.shared)
      (Sys.init ⟨upPsc, [], []⟩) (received (header 5 2 ++ [97, 98]) ++
        .start 1 (.read 5 (.wfBytes 0 2)) :: List.replicate 5 (.turn 1)) :=
  accesses_atomic ⟨0⟩ 0 upPsc _ (by decide +kernel)

theorem tornRead_reads :
    (exec (step (perform ⟨0⟩) (jobs 0)) (Sys.init ⟨upPsc, [], []⟩) tornRead).map
      (fun s => (s.shared.reads, s.shared.psc.rxlog)) =
    some ([⟨5, .si 0 (List.replicate 40 122), ((List.replicate 40 122).set 8 0, 0)⟩],
      [(0, .count 5), (0, .store 5 [65, 66, 67, 68, 69, 70, 71, 72]), (0, .requestScan 5),
        (0, .listeners 5), (0, .count 5), (0, .store 5 [97, 98]), (0, .requestScan 5),
        (0, .listeners 5)]) := by
  decide +kernel

/-- `read_si` finds the length of the first message and the bytes of the second, which are too few:
    it stores its old string, cut at the length of the first. Of two `write_so` the headers come
    first. -/
theorem temporary_guards :
    exec (Tcp.step ⟨0⟩) (Psc.init {7, 8} {5})
      [.connect ⟨true, true⟩, .event ⟨true, false, false, false, false, false, ""⟩] = some upPsc ∧
    (∃ s, exec (step (perform ⟨0⟩) (jobs 0)) (Sys.init ⟨upPsc, [], []⟩) tornRead = some s ∧
      ¬ OneMessage upPsc s.shared) ∧
    ∃ s, exec (step (perform ⟨0⟩) (jobs 0)) (Sys.init ⟨upPsc, [], []⟩) splitSend = some s ∧
      ¬ Adjacent s.shared.appends := by
  refine ⟨rfl, ?_, ?_⟩
  · obtain ⟨s, hs, hread⟩ := Option.map_eq_some_iff.mp tornRead_reads
    obtain ⟨hreads, hlog⟩ := Prod.mk.inj hread
    refine ⟨s, hs, fun h => ?_⟩
    obtain ⟨d, hheld, hvalue⟩ := h _ (hreads ▸ List.mem_singleton_self _)
    rcases hheld with hempty | ⟨sid, hstore⟩
    · rw [si_value_nil d _ hempty] at hvalue
      exact absurd hvalue (by decide)
    · rw [hlog] at hstore
      have hbodies : sid = 0 ∧ d.mem = [65, 66, 67, 68, 69, 70, 71, 72] ∨
          sid = 0 ∧ d.mem = [97, 98] := by
        simpa using hstore
      rcases hbodies with ⟨-, hmem⟩ | ⟨-, hmem⟩
      · rw [si_value d _ (by rw [hmem]; decide) (by rw [hmem]; decide), hmem] at hvalue
        exact absurd hvalue (by decide)
      · rw [si_value d _ (by rw [hmem]; decide) (by rw [hmem]; decide), hmem] at hvalue
        exact absurd hvalue (by decide)
  · have hsends : (exec (step (perform ⟨0⟩) (jobs 0)) (Sys.init ⟨upPsc, [], []⟩) splitSend).map
        (fun s => s.shared.appends) =
        some [⟨1, .temporary, .header, header 7 1⟩, ⟨2, .temporary, .header, header 8 1⟩] := by
      decide +kernel
    obtain ⟨s, hs, happ⟩ := Option.map_eq_some_iff.mp hsends
    refine ⟨s, hs, fun h => ?_⟩
    rw [happ, Adjacent, List.isChain_pair] at h
    exact absurd (h rfl).1 (by decide)

end Sample

end Pscdrv.Access
