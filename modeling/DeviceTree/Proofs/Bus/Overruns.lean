import DeviceTree.Proofs.Bus.Accesses
import DeviceTree.Proofs.Bus.Copies

/-!
# Copies that run past the last address

Before a copy calls anything, it checks that both runs lie in their windows and that they start at
addresses. It does not check that they end at addresses, so in a window that reaches past the last
address a run may leave the addresses half way: the sum that is too large traps there, after the
accesses that were made.
-/
namespace DeviceTree

open Platform (Obeys)

variable {σ ι : Type} {start place dstStart srcStart count i : Nat} {width : Width}
  {value : UInt64} {space : AddressSpace ι}

theorem runAddress_eq_ok_iff : Bus.runAddress start width i = .ok place ↔
    start + i * width.bytes < addressLimit ∧ start + i * width.bytes = place := by
  rw [Bus.runAddress]
  split <;> simp [*]

theorem Window.address_lt {w : Window} {offset : Nat}
    (hstart : w.address offset width count = .ok start) : start < addressLimit := by
  obtain ⟨rfl, -⟩ := address_eq_ok hstart
  rw [Window.address] at hstart
  split at hstart
  · cases hstart
  split at hstart
  · cases hstart
  · omega

/-- The calls of a copy: to the registers of its runs that have addresses. -/
inductive Call.Copies (dstStart srcStart : Nat) (width : Width) (count : Nat) : Call ι → Prop
  | read {i : Nat} (h : i < count) (within : srcStart + i * width.bytes < addressLimit)
      (space : AddressSpace ι) :
      Copies dstStart srcStart width count (.read space width (srcStart + i * width.bytes))
  | write {i : Nat} (h : i < count) (within : dstStart + i * width.bytes < addressLimit)
      (space : AddressSpace ι) (value : UInt64) :
      Copies dstStart srcStart width count (.write space width (dstStart + i * width.bytes) value)

private theorem copies_read (hi : i < count)
    (hplace : Bus.runAddress srcStart width i = .ok place) :
    Call.Copies dstStart srcStart width count (.read space width place) := by
  obtain ⟨hwithin, rfl⟩ := runAddress_eq_ok_iff.1 hplace
  exact .read hi hwithin space

private theorem copies_write (hi : i < count)
    (hplace : Bus.runAddress dstStart width i = .ok place) :
    Call.Copies dstStart srcStart width count (.write space width place value) := by
  obtain ⟨hwithin, rfl⟩ := runAddress_eq_ok_iff.1 hplace
  exact .write hi hwithin space value

namespace Bus

section Calls

variable {bus next later : Bus (Recorded σ ι) ι} {P : Call ι → Prop}

/-- What was called between the two buses. -/
def Adds (P : Call ι → Prop) (bus later : Bus (Recorded σ ι) ι) : Prop :=
  ∃ events, later.platform.log = events ++ bus.platform.log ∧ ∀ e ∈ events, P e.call

theorem Adds.refl (bus : Bus (Recorded σ ι) ι) : Adds P bus bus :=
  ⟨[], rfl, by simp⟩

theorem Adds.trans (h : Adds P bus next) (hlast : Adds P next later) : Adds P bus later := by
  obtain ⟨events, hlog, hevents⟩ := h
  obtain ⟨more, hlog', hmore⟩ := hlast
  refine ⟨more ++ events, by rw [hlog', hlog, List.append_assoc], ?_⟩
  exact List.forall_mem_append.2 ⟨hmore, hevents⟩

theorem Called.adds {request : Call ι} {reply : request.Reply}
    (h : Called bus later request reply) (hrequest : P request) : Adds P bus later :=
  ⟨[_], h.2, by simpa using hrequest⟩

variable [Platform σ ι] {dst src : Window} {backwards : Bool} {left : Nat}

private theorem copyRun_adds (hleft : left ≤ count) :
    Ensures (copyRun dst src dstStart srcStart width backwards count left) bus
      (fun _ => Adds (Call.Copies dstStart srcStart width count) bus)
      (Adds (Call.Copies dstStart srcStart width count) bus) := by
  induction left generalizing bus with
  | zero => exact .refl bus
  | succ left ih =>
    rw [copyRun]
    generalize hindex : (if backwards then left else count - (left + 1)) = i
    have hi : i < count := by
      split at hindex <;> omega
    rw [ensures_bind]
    apply readAt_ensures.imp
    · intro value next hend
      obtain ⟨space, _, hplace, -, hread⟩ := hend
      have hfirst := hread.adds (P := Call.Copies dstStart srcStart width count)
        (copies_read hi hplace)
      rw [ensures_bind]
      apply writeAt_ensures.imp
      · intro _ written hend
        obtain ⟨there, _, htarget, -, hwritten⟩ := hend
        have hpair := hfirst.trans (hwritten.adds (copies_write hi htarget))
        exact (ih (Nat.le_of_succ_le hleft)).imp (fun _ _ => hpair.trans) fun _ => hpair.trans
      · intro later hend
        obtain rfl | ⟨there, _, e, htarget, -, hwritten⟩ := hend
        · exact hfirst
        · exact hfirst.trans (hwritten.adds (copies_write hi htarget))
    · intro later hend
      obtain rfl | ⟨space, _, e, hplace, -, hread⟩ := hend
      · exact .refl _
      · exact hread.adds (copies_read hi hplace)

end Calls

end Bus

section Serving

variable [Platform σ ι] {c : Copy ι} {bus : Bus σ ι} {done : Nat}
  {answer : EStateM.Result Error (Bus σ ι) Unit}

/-- On a platform that refuses nothing, a copy traps just if one of its registers has no address. -/
theorem Copy.ComesTo.trap_iff (h : c.ComesTo bus done answer) (hwithin : ∀ j < done, c.Within j)
    (hserves : Obeys (Event.Serves fun space => space = c.source ∨ space = c.target)
      bus.platform) :
    (∃ later, answer = .error .trap later) ↔
      ∃ i < c.count, addressLimit ≤ c.srcAddress i ∨ addressLimit ≤ c.dstAddress i := by
  cases h with
  | ends h =>
    obtain ⟨rfl, rfl, -⟩ := h.done_of_serves hserves
    constructor
    · rintro ⟨_, hend⟩
      cases hend
    · rintro ⟨i, hi, hpast⟩
      obtain ⟨k, hk, rfl⟩ := exists_index hi
      obtain ⟨hsrc, hdst⟩ := hwithin k hk
      omega
  | overruns h =>
    obtain ⟨hmore, hpast⟩ := h.not_within
    rw [Within, not_and_or, Nat.not_lt, Nat.not_lt] at hpast
    exact ⟨fun _ => ⟨c.index done, index_lt hmore, hpast⟩, fun _ => ⟨_, rfl⟩⟩

end Serving

section Checks

variable [Platform σ ι] (dst : Window) (dstOffset : Nat) (src : Window) (srcOffset : Nat)
  (width : Width) (count : Nat) (bus : Bus (Recorded σ ι) ι)

/-- What copying `count` registers from one window to another passes for addresses. -/
structure ChecksStarts : Prop where
  /-- A run that is not in its window, or starts at no address, is refused before all calls. -/
  refused : ∀ e, (dst.address dstOffset width count >>= fun _ =>
      src.address srcOffset width count) = .error e →
    Bus.copyRegisters dst dstOffset src srcOffset width count bus = .error e bus
  /-- The runs that are not refused are those that were asked for. -/
  starts : ∀ dstStart srcStart, dst.address dstOffset width count = .ok dstStart →
    src.address srcOffset width count = .ok srcStart →
      (dstStart = dst.resolvedBase + dstOffset ∧ dstStart < addressLimit) ∧
        srcStart = src.resolvedBase + srcOffset ∧ srcStart < addressLimit
  /-- Registers of the runs are called, at their addresses, and nothing else, however the copy
  ends. -/
  calls : ∀ dstStart srcStart, dst.address dstOffset width count = .ok dstStart →
    src.address srcOffset width count = .ok srcStart →
      Ensures (Bus.copyRegisters dst dstOffset src srcOffset width count) bus
        (fun _ => Bus.Adds (Call.Copies dstStart srcStart width count) bus)
        (Bus.Adds (Call.Copies dstStart srcStart width count) bus)
  /-- In windows that end at the last address, or before, all registers have addresses. -/
  fits : dst.resolvedBase + dst.length ≤ addressLimit →
    src.resolvedBase + src.length ≤ addressLimit →
    ∀ dstStart srcStart, dst.address dstOffset width count = .ok dstStart →
      src.address srcOffset width count = .ok srcStart →
        ∀ i < count, srcStart + i * width.bytes < addressLimit ∧
          dstStart + i * width.bytes < addressLimit
  /-- The first register without an address, or access that is refused, ends the copy, and the
  registers before are copied. -/
  ends : ∀ source target, (∃ dstStart, dst.address dstOffset width count = .ok dstStart) →
    (∃ srcStart, src.address srcOffset width count = .ok srcStart) →
    bus.registry.spaceOf src = .ok source → bus.registry.spaceOf dst = .ok target →
      ∃ done,
        (∀ j < done,
          (Copy.between source target dst dstOffset src srcOffset width count).Within j) ∧
        (Copy.between source target dst dstOffset src srcOffset width count).ComesTo bus done
          (Bus.copyRegisters dst dstOffset src srcOffset width count bus)
  /-- If no access is refused, a register without an address is where the copy traps. -/
  traps : ∀ dstStart srcStart source target, dst.address dstOffset width count = .ok dstStart →
    src.address srcOffset width count = .ok srcStart → bus.registry.spaceOf src = .ok source →
    bus.registry.spaceOf dst = .ok target →
    Obeys (Event.Serves fun space => space = source ∨ space = target) bus.platform →
      ((∃ later, Bus.copyRegisters dst dstOffset src srcOffset width count bus =
          .error .trap later) ↔
        ∃ i < count, addressLimit ≤ srcStart + i * width.bytes ∨
          addressLimit ≤ dstStart + i * width.bytes)

/-- A copy checks where its runs start and not where they end: it goes on up to a register that has
no address, and traps there. -/
theorem copyRegisters_checks_starts : ChecksStarts dst dstOffset src srcOffset width count bus where
  refused e hrefused := by
    rw [Bus.copyRegisters]
    cases hdst : dst.address dstOffset width count with
    | error fault =>
      obtain rfl : fault = e := by simpa [hdst, error_bind] using hrefused
      rfl
    | ok dstStart =>
      rw [hdst, ok_bind] at hrefused
      rw [hrefused]
      rfl
  starts dstStart srcStart hdst hsrc :=
    ⟨⟨(Window.address_eq_ok hdst).1, Window.address_lt hdst⟩, (Window.address_eq_ok hsrc).1,
      Window.address_lt hsrc⟩
  calls dstStart srcStart hdst hsrc := by
    rw [Bus.copyRegisters, hdst, hsrc]
    exact Bus.copyRun_adds (Nat.le_refl count)
  fits hdstFits hsrcFits dstStart srcStart hdst hsrc i hi :=
    ⟨Window.register_lt hsrcFits hsrc hi, Window.register_lt hdstFits hdst hi⟩
  ends source target hdst hsrc hsource htarget := by
    obtain ⟨dstStart, hdst⟩ := hdst
    obtain ⟨srcStart, hsrc⟩ := hsrc
    exact Copy.exists_comesTo hdst hsrc hsource htarget
  traps dstStart srcStart source target hdst hsrc hsource htarget hserves := by
    obtain ⟨done, hwithin, hcopy⟩ := Copy.exists_comesTo hdst hsrc hsource htarget
    obtain ⟨rfl, -⟩ := Window.address_eq_ok hdst
    obtain ⟨rfl, -⟩ := Window.address_eq_ok hsrc
    exact hcopy.trap_iff hwithin hserves

end Checks

/-- A window that reaches past the last address. -/
def topWindow : Window where
  base := 0
  length := 0x10
  resolvedBase := addressLimit - 4
  bus := none

def Simulated.zeroth : Simulated where
  cpu := { label := "cpu", values := .ofList [(0, (7 : UInt64))] }

/-- The second register of a window at the top has no address, and the first one is copied before
that shows. -/
theorem copyRegisters_overruns : ∃ bus later : Bus (Recorded Simulated FileNumber) FileNumber,
    Bus.copyRegisters numberedWindow 0 topWindow 0 .w32 2 bus = .error .trap later ∧
    later.platform.log.map Event.call =
      [.write .cpu .w32 0x1000 0, .read .cpu .w32 (addressLimit - 4)] ++
        bus.platform.log.map Event.call ∧
    topWindow.resolvedBase + 0 + 1 * Width.w32.bytes = addressLimit := by
  obtain ⟨known, -⟩ := Bus.exists_bridge
  refine ⟨{ known with platform := { inner := .zeroth } }, _, rfl, ?_, rfl⟩
  cbv

end DeviceTree
