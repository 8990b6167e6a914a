import DeviceTree.Platform.Simulated
import DeviceTree.Proofs.Bus.Replies

/-!
# Platforms that keep registers

What is said of registers is said of any platform that keeps one value for each address: reading
gives that value, masked to the width of the access, and writing puts another in its place. Either
may be refused, and then nothing has changed. Files held in memory are such a platform as long as no
value is due to change by itself.
-/
namespace DeviceTree

section Values

variable {ι : Type}

abbrev Values (ι : Type) := AddressSpace ι → Nat → UInt64

/-- After `value` was put at an address, and nothing else was done. -/
structure Values.Puts (before after : Values ι) (space : AddressSpace ι) (address : Nat)
    (value : UInt64) : Prop where
  there : after space address = value
  elsewhere : ∀ other place, (other, place) ≠ (space, address) →
    after other place = before other place

end Values

/-- How a platform keeps registers. -/
structure Registers (σ : Type) {ι : Type} [Platform σ ι] where
  /-- The states in which it does. -/
  Holds : σ → Prop
  /-- The address spaces that have registers. -/
  Installed : AddressSpace ι → Prop
  values : σ → Values ι
  holds_respond : ∀ s call, Holds s → Holds (Platform.respond call s).2
  values_read : ∀ s space width address, Holds s →
    values (Platform.respond (.read space width address) s).2 = values s
  reply_read : ∀ s space width address value, Holds s →
    (Platform.respond (.read space width address) s).1 = .ok value →
      value = width.mask (values s space address)
  puts_write : ∀ s space width address value, Holds s → Installed space →
    (Platform.respond (.write space width address value) s).1 = .ok () →
      (values s).Puts (values (Platform.respond (.write space width address value) s).2) space
        address value
  values_refused : ∀ s space width address value e, Holds s →
    (Platform.respond (.write space width address value) s).1 = .error e →
      values (Platform.respond (.write space width address value) s).2 = values s

def Registers.recorded {σ ι : Type} [Platform σ ι] (F : Registers σ) :
    Registers (Recorded σ ι) where
  Holds s := F.Holds s.inner
  Installed := F.Installed
  values s := F.values s.inner
  holds_respond s := F.holds_respond s.inner
  values_read s := F.values_read s.inner
  reply_read s := F.reply_read s.inner
  puts_write s := F.puts_write s.inner
  values_refused s := F.values_refused s.inner

/-- No access to the address spaces of `P` is refused. -/
def Event.Serves {ι : Type} (P : AddressSpace ι → Prop) : Event ι → Prop
  | ⟨.read space .., reply⟩ => P space → ∃ value, reply = .ok value
  | ⟨.write space .., reply⟩ => P space → reply = .ok ()
  | _ => True

namespace RegisterFile

variable {file next : RegisterFile} {address : Nat} {value : UInt64}

theorem get_set (file : RegisterFile) (address other : Nat) (value : UInt64) :
    (file.set address value).get other = if address = other then value else file.get other := by
  simp [get, set, Std.TreeMap.getD_insert]

theorem write_eq_ok (h : file.write address value = .ok next) : next = file.set address value := by
  rw [write] at h
  split at h
  · cases h
  · exact (Except.ok.inj h).symm

end RegisterFile

namespace Simulated

variable {s : Simulated} {file : RegisterFile} {address : Nat} {files : Nat}
  {space other : AddressSpace FileNumber}

def Added (files : Nat) : AddressSpace FileNumber → Prop
  | .cpu => True
  | .attached number => number.index < files

/-- No value changes by itself, and so many register files were added. -/
structure Settled (files : Nat) (s : Simulated) : Prop where
  delayed : s.delayed = []
  size : s.files.size = files

theorem file_setFile_self (hspace : Added s.files.size space) :
    (s.setFile file space).file space = file := by
  cases space with
  | cpu => rfl
  | attached number => simp [setFile, Simulated.file, show number.index < s.files.size from hspace]

private theorem file_setFile_ne (hne : other ≠ space) :
    (s.setFile file space).file other = s.file other := by
  cases space with
  | cpu =>
    cases other with
    | cpu => exact absurd rfl hne
    | attached number => rfl
  | attached number =>
    cases other with
    | cpu => rfl
    | attached another =>
      have hindex : number.index ≠ another.index := by
        intro heq
        exact hne (congrArg AddressSpace.attached (congrArg FileNumber.mk heq.symm))
      simp [setFile, Simulated.file, Array.getD_eq_getD_getElem?, hindex]

namespace Settled

variable (hs : s.Settled files)

include hs

theorem respond_read (width : Width) :
    Platform.respond (.read space width address) s = ((s.file space).read width address, s) := by
  have hsettle : s.settle address = s := by
    obtain ⟨cpu, added, delayed, stalled, claims, drivers⟩ := s
    obtain rfl : delayed = [] := hs.delayed
    rfl
  simp only [Platform.respond, respond, hsettle, ite_self]

theorem setFile (file : RegisterFile) (space : AddressSpace FileNumber) :
    (s.setFile file space).Settled files := by
  cases space with
  | cpu => exact ⟨hs.delayed, hs.size⟩
  | attached number => exact ⟨hs.delayed, Array.size_setIfInBounds.trans hs.size⟩

theorem respond (call : Call FileNumber) : (Platform.respond call s).2.Settled files := by
  cases call with
  | read space width address =>
    rw [hs.respond_read]
    exact hs
  | write space width address value =>
    simp only [Platform.respond, Simulated.respond]
    cases (s.file space).write address value with
    | error e => exact hs
    | ok file => exact hs.setFile file space
  | claim | connect | stall => exact ⟨hs.delayed, hs.size⟩

end Settled

/-- The register files, as long as nothing is due to change. -/
def registers (files : Nat) : Registers Simulated where
  Holds := Settled files
  Installed := Added files
  values s space := (s.file space).get
  holds_respond _ call hs := hs.respond call
  values_read s space width address hs := by rw [hs.respond_read]
  reply_read s space width address value hs hreply := by
    rw [hs.respond_read, RegisterFile.read] at hreply
    split at hreply
    · cases hreply
    · exact (Except.ok.inj hreply).symm
  puts_write s space width address value hs hspace hreply := by
    rw [← hs.size] at hspace
    simp only [Platform.respond, Simulated.respond] at *
    cases hwrite : (s.file space).write address value with
    | error e => simp [hwrite] at hreply
    | ok file =>
      obtain rfl := RegisterFile.write_eq_ok hwrite
      constructor
      · rw [file_setFile_self hspace, RegisterFile.get_set, if_pos rfl]
      · intro other place hne
        by_cases hother : other = space
        · subst hother
          have hplace : address ≠ place := fun heq => hne (by rw [heq])
          rw [file_setFile_self hspace, RegisterFile.get_set, if_neg hplace]
        · rw [file_setFile_ne hother]
  values_refused s space width address value e hs hreply := by
    simp only [Platform.respond, Simulated.respond] at *
    cases hwrite : (s.file space).write address value with
    | error e => rfl
    | ok file => simp [hwrite] at hreply

section Served

variable {P : AddressSpace FileNumber → Prop}

private theorem refused_setFile (hfile : file.refused = (s.file space).refused) :
    ((s.setFile file space).file other).refused = (s.file other).refused := by
  by_cases hother : other = space
  · subst hother
    cases other with
    | cpu => exact hfile
    | attached number =>
      by_cases hadded : Added s.files.size (.attached number)
      · rw [file_setFile_self hadded, hfile]
      · rw [setFile, Array.setIfInBounds, dif_neg (show ¬number.index < s.files.size from hadded)]
  · rw [file_setFile_ne hother]

namespace Settled

variable (hs : s.Settled files)

include hs

theorem refused_respond (call : Call FileNumber) :
    ((Platform.respond call s).2.file other).refused = (s.file other).refused := by
  cases call with
  | read space width address => rw [hs.respond_read]
  | write space width address value =>
    simp only [Platform.respond, Simulated.respond]
    cases hwrite : (s.file space).write address value with
    | error e => rfl
    | ok file =>
      obtain rfl := RegisterFile.write_eq_ok hwrite
      exact refused_setFile rfl
  | claim | connect | stall => cases other <;> rfl

theorem obeys_serves (hrefused : ∀ space, P space → (s.file space).refused = []) :
    Platform.Obeys (Event.Serves P) s := by
  refine Platform.obeys_of_invariant (fun s : Simulated => s.Settled files ∧
    ∀ space, P space → (s.file space).refused = []) (fun s call hs => ?_) (fun s call hs => ?_)
    ⟨hs, hrefused⟩
  · refine ⟨hs.1.respond call, fun space hspace => ?_⟩
    rw [hs.1.refused_respond, hs.2 space hspace]
  · cases call with
    | read space width address =>
      intro hspace
      rw [hs.1.respond_read, RegisterFile.read, if_neg (by simp [hs.2 space hspace])]
      exact ⟨_, rfl⟩
    | write space width address value =>
      intro hspace
      simp only [Platform.respond, Simulated.respond, RegisterFile.write]
      rw [if_neg (by simp [hs.2 space hspace])]
    | claim | connect | stall => trivial

end Settled

end Served

end Simulated

end DeviceTree
