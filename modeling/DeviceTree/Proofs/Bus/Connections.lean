import Mathlib.Data.List.Nodup
import DeviceTree.Proofs.Bus.Lineage
import DeviceTree.Proofs.Bus.Reachable

/-!
# Drivers are connected from the outermost on

A recorded platform shows which drivers were connected, and in which order. A live device is
connected exactly if it is the root or was connected in the record, and then everything above it was
connected earlier; every operation keeps this. So whoever follows a phandle connects what of the
line of its target is not connected yet, from the outermost on, up to the first refusal.
-/
namespace DeviceTree

/-- A clock behind a bus, and a serial port that refers to it. -/
def Tree.clocked : Tree where
  root :=
    { name := ""
      properties := []
      children :=
        [{ name := "soc"
           children := [{ name := "clock", properties := [.ofCells "phandle" [1]] }] },
          { name := "serial", properties := [.ofCells "clocks" [1]] }] }

private theorem split_append_singleton {α : Type} {as outer inner : List α} {a b : α}
    (h : as ++ [b] = outer ++ a :: inner) :
    outer = as ∧ a = b ∨ ∃ rest, as = outer ++ a :: rest := by
  rcases List.eq_nil_or_concat inner with rfl | ⟨rest, last, rfl⟩
  · obtain ⟨houter, hlast⟩ := List.append_inj' h rfl
    exact .inl ⟨houter.symm, (List.singleton_inj.1 hlast).symm⟩
  · rw [List.concat_eq_append, ← List.cons_append, ← List.append_assoc] at h
    exact .inr ⟨rest, List.append_inj_left' h rfl⟩

private theorem exists_split_of_filter {α : Type} {p : α → Bool} {as outer inner : List α} {a : α}
    (h : as.filter p = outer ++ a :: inner) :
    ∃ before after, as = before ++ a :: after ∧ before.filter p = outer ∧ p a = true := by
  obtain ⟨before, rest, rfl, rfl, hrest⟩ := List.filter_eq_append_iff.1 h
  obtain ⟨passed, after, rfl, hpassed, ha, -⟩ := List.filter_eq_cons_iff.1 hrest
  refine ⟨before ++ passed, after, by simp, ?_, ha⟩
  rw [List.filter_append, List.filter_eq_nil_iff.2 hpassed, List.append_nil]

namespace Registry

variable {ι : Type} {r next : Registry ι} {h p k : Handle} {device : Device ι}
  {connections : List Handle}

/-- The drivers of `connections` were connected in this order, each once and after that of the
device above it, and so it stands in the registry. -/
structure Wired (r : Registry ι) (connections : List Handle) : Prop where
  sound : r.Sound
  nodup : connections.Nodup
  root_notMem : rootHandle ∉ connections
  issued : ∀ h ∈ connections, h.index < r.slots.size
  connected_iff : ∀ h device, r.device? h = some device →
    (device.connected = true ↔ h = rootHandle ∨ h ∈ connections)
  under : ∀ h p outer inner, r.HasParent h p → connections = outer ++ h :: inner →
    p = rootHandle ∨ p ∈ outer

theorem wired_ofBlob {b : Blob} (hr : Registry.ofBlob b = .ok r) : r.Wired [] := by
  refine ⟨(sound_ofBlob hr).2, .nil, List.not_mem_nil, by simp, ?_, by simp⟩
  intro h device hd
  obtain ⟨_, _, root, -, -, -, -, hview, -⟩ := ofBlob_eq_ok hr
  rw [hview] at hd
  split at hd
  case isTrue hroot =>
    obtain rfl := Option.some.inj hd
    simp [hroot]
  case isFalse => cases hd

namespace Wired

variable (hwired : r.Wired connections)

include hwired

private theorem root_lt : rootHandle.index < r.slots.size := by
  obtain ⟨root, hroot, -⟩ := hwired.sound.root
  exact index_lt_of_device? hroot

/-- Changes that connect nothing leave all as it stands. -/
theorem calm (hsteps : Steps r next) (hcalm : Calm r next) : next.Wired connections := by
  constructor
  case sound => exact hsteps.sound hwired.sound
  case nodup => exact hwired.nodup
  case root_notMem => exact hwired.root_notMem
  case issued =>
    intro h hh
    exact Nat.lt_of_lt_of_le (hwired.issued h hh) hsteps.size_le
  case connected_iff =>
    intro h device hd
    rcases hcalm h device hd with ⟨old, hold, hsame⟩ | ⟨hle, hnew⟩
    · rw [hsame]
      exact hwired.connected_iff h old hold
    · -- The handle is newer than the root and than all that was connected.
      have hroot := hwired.root_lt
      rw [hnew]
      refine ⟨nofun, fun hh => ?_⟩
      rcases hh with rfl | hh
      · omega
      · have hlt := hwired.issued h hh
        omega
  case under =>
    intro h p outer inner hunder hsplit
    obtain ⟨device, hd, hparent⟩ := hunder
    have hlt := hwired.issued h (by simp [hsplit])
    obtain ⟨old, hold, heq⟩ := hsteps.device?_eq hwired.sound hlt hd
    rw [heq] at hparent
    exact hwired.under h p outer inner ⟨old, hold, hparent⟩ hsplit

theorem connectedFromTop : r.ConnectedFromTop := by
  constructor
  · obtain ⟨root, hroot, -⟩ := hwired.sound.root
    rw [connected_of_device? hroot]
    exact (hwired.connected_iff _ _ hroot).2 (.inl rfl)
  · intro h p hunder hh
    obtain ⟨device, hd, hparent⟩ := hunder
    obtain ⟨above, habove, -⟩ := hwired.sound.parent_live hd hparent
    rw [connected_of_device? hd] at hh
    rw [connected_of_device? habove]
    rcases (hwired.connected_iff h device hd).1 hh with rfl | hmem
    · exact absurd rfl (hwired.sound.ne_rootHandle hd hparent)
    · obtain ⟨outer, inner, hsplit⟩ := List.append_of_mem hmem
      refine (hwired.connected_iff p above habove).2 ?_
      refine (hwired.under h p outer inner ⟨device, hd, hparent⟩ hsplit).imp_right fun hp => ?_
      simp [hsplit, hp]

/-- A device is connected under one that was connected earlier. -/
theorem connect (hd : r.device? h = some device) (hfresh : device.connected = false)
    (hparent : device.parent = some p) (habove : r.connected p) :
    (r.connect h).Wired (connections ++ [h]) := by
  have hnew := mt (hwired.connected_iff h device hd).2 (by simp [hfresh])
  rw [not_or] at hnew
  have hstep : Step r (r.connect h) := .connect r h
  constructor
  case sound => exact hstep.sound hwired.sound
  case nodup =>
    rw [List.nodup_append]
    refine ⟨hwired.nodup, List.nodup_singleton h, ?_⟩
    rintro k hk _ hh rfl
    exact hnew.2 (List.mem_singleton.1 hh ▸ hk)
  case root_notMem => simpa using ⟨hwired.root_notMem, fun heq => hnew.1 heq.symm⟩
  case issued =>
    intro k hk
    refine Nat.lt_of_lt_of_le ?_ hstep.size_le
    rcases List.mem_append.1 hk with hk | hk
    · exact hwired.issued k hk
    · rw [List.mem_singleton.1 hk]
      exact index_lt_of_device? hd
  case connected_iff =>
    intro k later hk
    obtain ⟨old, hold, -⟩ := exists_of_device?_modify hk
    have hsame := hwired.connected_iff k old hold
    rw [← connected_of_device? hold] at hsame
    rw [← connected_of_device? hk, connected_connect hd, Bool.or_eq_true, hsame,
      decide_eq_true_eq, List.mem_append, List.mem_singleton, or_assoc]
  case under =>
    intro k q outer inner hunder hsplit
    rw [hasParent_connect] at hunder
    rcases split_append_singleton hsplit with ⟨rfl, rfl⟩ | ⟨rest, hsplit⟩
    · obtain ⟨same, hsame, hq⟩ := hunder
      obtain rfl := Option.some.inj (hsame.symm.trans hd)
      obtain rfl := Option.some.inj (hq.symm.trans hparent)
      obtain ⟨above, hlive, -⟩ := hwired.sound.parent_live hd hparent
      rw [connected_of_device? hlive] at habove
      exact (hwired.connected_iff _ above hlive).1 habove
    · exact hwired.under k q outer rest hunder hsplit

end Wired

end Registry

/-- The device whose driver was connected. -/
def Event.connected? {ι : Type} : Event ι → Option Handle
  | ⟨.connect h _ _, .ok _⟩ => some h
  | _ => none

namespace Bus

variable {σ ι : Type} {bus next later : Bus (Recorded σ ι) ι} {h k : Handle} {device : Device ι}
  {accepted attempted pending : List Handle}

def connections (bus : Bus (Recorded σ ι) ι) : List Handle :=
  bus.platform.log.reverse.filterMap Event.connected?

/-- The devices whose drivers were to be connected, also where that was refused. -/
def attempts (bus : Bus (Recorded σ ι) ι) : List Handle :=
  bus.platform.log.reverse.filterMap fun event => event.call.driver?

theorem connections_of_log {event : Event ι}
    (hlog : later.platform.log = event :: bus.platform.log) :
    later.connections = bus.connections ++ event.connected?.toList := by
  simp only [connections, hlog, List.reverse_cons, List.filterMap_append]
  cases hevent : event.connected? <;> simp [hevent]

private theorem attempts_of_log {event : Event ι}
    (hlog : later.platform.log = event :: bus.platform.log) :
    later.attempts = bus.attempts ++ event.call.driver?.toList := by
  simp only [attempts, hlog, List.reverse_cons, List.filterMap_append]
  cases hevent : event.call.driver? <;> simp [hevent]

/-- Between the two buses the drivers of `attempted` were to be connected, and those of `accepted`
were. -/
structure Connects (bus later : Bus (Recorded σ ι) ι) (accepted attempted : List Handle) :
    Prop where
  wired : later.registry.Wired later.connections
  lines : ∀ h line, bus.registry.Line h line → later.registry.Line h line
  connections : later.connections = bus.connections ++ accepted
  attempts : later.attempts = bus.attempts ++ attempted

theorem Connects.refl (hwired : bus.registry.Wired bus.connections) : Connects bus bus [] [] :=
  ⟨hwired, fun _ _ => id, (List.append_nil _).symm, (List.append_nil _).symm⟩

theorem Connects.trans {more tried : List Handle} (hfirst : Connects bus next accepted attempted)
    (hlast : Connects next later more tried) :
    Connects bus later (accepted ++ more) (attempted ++ tried) := by
  refine ⟨hlast.wired, fun h line hline => hlast.lines h line (hfirst.lines h line hline), ?_, ?_⟩
  · rw [hlast.connections, hfirst.connections, List.append_assoc]
  · rw [hlast.attempts, hfirst.attempts, List.append_assoc]

variable [Platform σ ι]

theorem connectDriver_ensures {p : Handle} (hwired : bus.registry.Wired bus.connections)
    (hd : bus.registry.device? h = some device) (hfresh : device.connected = false)
    (hparent : device.parent = some p) (habove : bus.registry.connected p) :
    Ensures (connectDriver h) bus
      (fun _ later => Connects bus later [h] [h] ∧ later.registry = bus.registry.connect h)
      fun later => Connects bus later [] [h] := by
  let answer := Platform.respond (.connect h device.node device.name) bus.platform
  rw [connectDriver, ensures_bind, ensures_ask]
  simp only [Registry.device_eq_ok_iff, hd]
  refine ⟨fun same hsame => ?_, by simp [Registry.device, hd]⟩
  obtain rfl := Option.some.inj hsame
  rw [ensures_bind, ensures_call, ensures_bind, ensures_lift]
  constructor
  · intro _ hreply
    let later : Bus (Recorded σ ι) ι :=
      { registry := bus.registry.connect h, platform := answer.2 }
    have hlog : later.platform.log =
        ⟨.connect h device.node device.name, .ok ()⟩ :: bus.platform.log := by
      rw [← hreply]
      rfl
    have hconnections : later.connections = bus.connections ++ [h] := connections_of_log hlog
    have hattempts : later.attempts = bus.attempts ++ [h] := attempts_of_log hlog
    have hwired' : later.registry.Wired later.connections := by
      rw [hconnections]
      exact hwired.connect hd hfresh hparent habove
    exact ⟨⟨hwired', fun _ _ hline => hline.connect, hconnections, hattempts⟩, rfl⟩
  · intro e hreply
    let later : Bus (Recorded σ ι) ι := { bus with platform := answer.2 }
    have hlog : later.platform.log =
        ⟨.connect h device.node device.name, .error e⟩ :: bus.platform.log := by
      rw [← hreply]
      rfl
    have hconnections : later.connections = bus.connections ++ [] := connections_of_log hlog
    have hattempts : later.attempts = bus.attempts ++ [h] := attempts_of_log hlog
    have hwired' : later.registry.Wired later.connections := by
      rwa [hconnections, List.append_nil]
    exact ⟨hwired', fun _ _ => id, hconnections, hattempts⟩

theorem forM_connectDriver_ensures (hwired : bus.registry.Wired bus.connections)
    (hpending : bus.registry.Pending pending) :
    Ensures (pending.forM connectDriver) bus (fun _ later => Connects bus later pending pending)
      fun later => ∃ outer k inner, pending = outer ++ k :: inner ∧
        Connects bus later outer (outer ++ [k]) := by
  induction pending generalizing bus with
  | nil => exact .refl hwired
  | cons h rest ih =>
    cases hpending with
    | cons live unconnected under above onward =>
      change Ensures (connectDriver h >>= fun _ => rest.forM connectDriver) _ _ _
      rw [ensures_bind]
      apply (connectDriver_ensures hwired live unconnected under above).imp
      · intro _ next hnext
        obtain ⟨hnext, hregistry⟩ := hnext
        apply (ih hnext.wired (hregistry ▸ onward)).imp
        · intro _ later hlater
          exact hnext.trans hlater
        · intro later hlater
          obtain ⟨outer, k, inner, rfl, hlater⟩ := hlater
          exact ⟨h :: outer, k, inner, rfl, hnext.trans hlater⟩
      · intro later hlater
        exact ⟨[], h, rest, rfl, hlater⟩

theorem connect_ensures (hwired : bus.registry.Wired bus.connections) {line : List Handle}
    (hline : bus.registry.Line h line) : Ensures (connect h) bus
      (fun _ later => Connects bus later (line.filter (!bus.registry.connected ·))
        (line.filter (!bus.registry.connected ·)))
      fun later => ∃ outer k inner, line.filter (!bus.registry.connected ·) = outer ++ k :: inner ∧
        Connects bus later outer (outer ++ [k]) := by
  have hsound := hwired.sound
  have hconnected := hwired.connectedFromTop
  have hunconnected := Registry.unconnected_eq hconnected hsound hline
  rw [connect, ensures_bind, ensures_ask, hunconnected]
  refine ⟨fun pending hpending => ?_, nofun⟩
  obtain rfl := Except.ok.inj hpending
  exact forM_connectDriver_ensures hwired (hline.pending_filter hconnected hsound)

end Bus

theorem Event.connected?_eq_none {ι : Type} {event : Event ι}
    (hcall : event.call.driver? = none) : event.connected? = none := by
  obtain ⟨_ | _ | _ | _ | _, _⟩ := event <;> first | rfl | cases hcall

/-- The operation does not write to the record behind the back of the bus. -/
def Operation.KeepsRecord {σ ι : Type} : Operation (Recorded σ ι) ι → Prop
  | .changePlatform change => ∀ platform, (change platform).log = platform.log
  | _ => True

namespace Bus

variable {σ ι : Type} {bus next later : Bus (Recorded σ ι) ι} {h k : Handle} {device : Device ι}

/-- The drivers that were connected between the two buses are those of live devices. -/
structure Appends (bus later : Bus (Recorded σ ι) ι) : Prop where
  wired : later.registry.Wired later.connections
  connections : ∃ more, later.connections = bus.connections ++ more ∧
    ∀ k ∈ more, ∃ device, later.registry.device? k = some device

structure Extends (bus later : Bus (Recorded σ ι) ι) : Prop extends Appends bus later where
  live : ∀ k device, bus.registry.device? k = some device →
    ∃ same, later.registry.device? k = some same

theorem Appends.of_eq (hwired : later.registry.Wired later.connections)
    (hconnections : later.connections = bus.connections) : Appends bus later :=
  ⟨hwired, [], by rw [hconnections, List.append_nil], by simp⟩

theorem Extends.refl (hwired : bus.registry.Wired bus.connections) : Extends bus bus :=
  ⟨.of_eq hwired rfl, fun _ device hk => ⟨device, hk⟩⟩

theorem Extends.trans (hfirst : Extends bus next) (hlast : Extends next later) :
    Extends bus later := by
  obtain ⟨more, hmore, hlive⟩ := hfirst.connections
  obtain ⟨yet, hyet, hlive'⟩ := hlast.connections
  refine ⟨⟨hlast.wired, more ++ yet, ?_, ?_⟩, ?_⟩
  · rw [hyet, hmore, List.append_assoc]
  · intro k hk
    rcases List.mem_append.1 hk with hk | hk
    · obtain ⟨device, hd⟩ := hlive k hk
      exact hlast.live k device hd
    · exact hlive' k hk
  · intro k device hk
    obtain ⟨same, hsame⟩ := hfirst.live k device hk
    exact hlast.live k same hsame

/-- What is connected of a line is live, as the line is. -/
theorem Connects.extends {accepted attempted line : List Handle}
    (hwired : bus.registry.Wired bus.connections) (hline : bus.registry.Line h line)
    (hconnects : Connects bus later accepted attempted) (hsub : ∀ k ∈ accepted, k ∈ line) :
    Extends bus later := by
  refine ⟨⟨hconnects.wired, accepted, hconnects.connections, fun k hk => ?_⟩, ?_⟩
  · exact (hconnects.lines h line hline).live k (hsub k hk)
  · intro k device hd
    obtain ⟨way, hway⟩ := hwired.sound.exists_line hd
    exact (hconnects.lines k way hway).live k hway.mem

variable [Platform σ ι]

theorem permits_extends : Permits (fun bus : Bus (Recorded σ ι) ι =>
    bus.registry.Wired bus.connections) Extends where
  refl _ := .refl
  trans _ _ _ := .trans
  keeps _ _ _ hextends := hextends.wired
  sound _ hwired := hwired.sound
  grows bus registry hwired hgrows := by
    refine ⟨.of_eq (hwired.calm hgrows.steps hgrows.calm) rfl, fun k device hk => ?_⟩
    obtain ⟨later, hlater, -⟩ := hgrows.keeps k device hk
    exact ⟨later, hlater⟩
  call bus request hwired hrequest := by
    let answer := Platform.respond request bus.platform
    let later : Bus (Recorded σ ι) ι := { bus with platform := answer.2 }
    have hconnections : later.connections = bus.connections := by
      have hlog : later.platform.log = ⟨request, answer.1⟩ :: bus.platform.log := rfl
      rw [connections_of_log hlog, Event.connected?_eq_none hrequest, Option.toList_none,
        List.append_nil]
    have hwired' : later.registry.Wired later.connections := by rwa [hconnections]
    exact ⟨.of_eq hwired' hconnections, fun _ device hk => ⟨device, hk⟩⟩
  connect h bus hwired := by
    cases hd : bus.registry.device? h with
    | none =>
      rw [connect, ensures_bind, ensures_ask, Registry.unconnected]
      simp only [Registry.device, hd, error_bind]
      exact ⟨fun _ hok => absurd hok (by simp), fun _ _ => .refl hwired⟩
    | some device =>
      obtain ⟨line, hline⟩ := hwired.sound.exists_line hd
      apply (connect_ensures hwired hline).imp
      · intro _ later hlater
        exact hlater.extends hwired hline fun k hk => (List.mem_filter.1 hk).1
      · intro later hlater
        obtain ⟨outer, k, inner, hsplit, hlater⟩ := hlater
        refine hlater.extends hwired hline fun c hc => ?_
        have hmem : c ∈ line.filter (!bus.registry.connected ·) := by simp [hsplit, hc]
        exact (List.mem_filter.1 hmem).1

/-- Each operation connects drivers of live devices at most, whether it succeeds or fails. -/
theorem after_appends {op : Operation (Recorded σ ι) ι} (hop : op.KeepsRecord)
    (hwired : bus.registry.Wired bus.connections) : Appends bus (op.after bus) := by
  apply Operation.after_of_ensures
  cases op with
  | destroy h =>
    rw [Operation.perform, ensures_onRegistry]
    apply (Registry.destroy_ensures hwired.sound).imp
    · exact fun _ next hend => .of_eq (hwired.calm hend.1 hend.2) rfl
    · rintro _ rfl
      exact .of_eq hwired rfl
  | changePlatform change =>
    have hconnections : connections { bus with platform := change bus.platform } =
        bus.connections := by simp only [connections, hop bus.platform]
    exact .of_eq (hconnections ▸ hwired) hconnections
  | _ =>
    refine Ensures.imp (permits_extends.perform _ ?_ bus hwired)
      (fun _ _ hextends => hextends.toAppends) fun _ hextends => hextends.toAppends
    trivial

/-- What was called when a phandle was followed. With success, what was not yet connected of the
line of the target was connected, from the outermost on. If a driver is refused, all further out
are connected, and this one and all below it are not. Other failures come before anything is to be
connected. -/
inductive Followed (bus : Bus (Recorded σ ι) ι) :
    EStateM.Result Error (Bus (Recorded σ ι) ι) Handle → Prop
  | connected {target : Handle} {line : List Handle} {later : Bus (Recorded σ ι) ι}
    (way : later.registry.Line target line)
    (attempts : later.attempts = bus.attempts ++ line.filter (!bus.registry.connected ·))
    (connections : later.connections = bus.connections ++ line.filter (!bus.registry.connected ·))
    (all : ∀ k ∈ line, later.registry.connected k) : Followed bus (.ok target later)
  | refused {e : Error} {target k : Handle} {outer inner : List Handle}
    {later : Bus (Recorded σ ι) ι} (way : later.registry.Line target (outer ++ k :: inner))
    (attempts : later.attempts =
      bus.attempts ++ (outer.filter (!bus.registry.connected ·) ++ [k]))
    (connections : later.connections = bus.connections ++ outer.filter (!bus.registry.connected ·))
    (above : ∀ a ∈ outer, later.registry.connected a)
    (below : ∀ d, Relation.ReflTransGen later.registry.HasParent d k →
      ¬later.registry.connected d) : Followed bus (.error e later)
  | failed {e : Error} {later : Bus (Recorded σ ι) ι} (attempts : later.attempts = bus.attempts)
    (connections : later.connections = bus.connections) : Followed bus (.error e later)

omit [Platform σ ι] in
theorem Connects.connected_iff {accepted attempted : List Handle}
    (hconnects : Connects bus later accepted attempted)
    (hwired : bus.registry.Wired bus.connections) (hk : bus.registry.device? k = some device) :
    later.registry.connected k ↔ bus.registry.connected k ∨ k ∈ accepted := by
  obtain ⟨line, hline⟩ := hwired.sound.exists_line hk
  obtain ⟨same, hsame⟩ := (hconnects.lines k line hline).live k hline.mem
  rw [Registry.connected_of_device? hsame, hconnects.wired.connected_iff k same hsame,
    hconnects.connections, List.mem_append, ← or_assoc, ← hwired.connected_iff k device hk,
    Registry.connected_of_device? hk]

/-- Connecting a device leaves what `Followed` says, also seen from an earlier bus that had not
called anything else and had connected the same of the line. -/
theorem connect_followed {origin : Bus (Recorded σ ι) ι} {line : List Handle}
    (hwired : bus.registry.Wired bus.connections) (hline : bus.registry.Line h line)
    (hsame : ∀ k ∈ line, bus.registry.connected k = origin.registry.connected k)
    (hplatform : bus.platform = origin.platform) :
    Ensures (connect h) bus (fun _ later => Followed origin (.ok h later))
      fun later => ∀ e, Followed origin (.error e later) := by
  have hattempts : bus.attempts = origin.attempts := by rw [attempts, hplatform, attempts]
  have hconnections : bus.connections = origin.connections := by
    rw [connections, hplatform, connections]
  have hconnected : ∀ {later accepted attempted}, Connects bus later accepted attempted →
      ∀ k ∈ line, (later.registry.connected k ↔ bus.registry.connected k ∨ k ∈ accepted) := by
    intro later accepted attempted hlater k hk
    obtain ⟨device, hd⟩ := hline.live k hk
    exact hlater.connected_iff hwired hd
  apply (connect_ensures hwired hline).imp
  · intro _ later hlater
    have hfilter := List.filter_congr fun k hk => congrArg not (hsame k hk)
    refine .connected (hlater.lines h line hline) ?_ ?_ fun k hk => ?_
    · rw [hlater.attempts, hattempts, hfilter]
    · rw [hlater.connections, hconnections, hfilter]
    · rw [hconnected hlater k hk]
      cases hold : bus.registry.connected k <;> simp [hk, hold]
  · intro later hlater e
    obtain ⟨accepted, k, rest, hsplit, hlater⟩ := hlater
    obtain ⟨outer, inner, rfl, rfl, hk⟩ := exists_split_of_filter hsplit
    have hfilter := List.filter_congr fun a ha =>
      congrArg not (hsame a (List.mem_append_left (k :: inner) ha))
    refine .refused (hlater.lines h _ hline) ?_ ?_ (fun a ha => ?_) fun d hd hconnected' => ?_
    · rw [hlater.attempts, hattempts, hfilter]
    · rw [hlater.connections, hconnections, hfilter]
    · rw [hconnected hlater a (List.mem_append_left _ ha)]
      cases hold : bus.registry.connected a <;> simp [ha, hold]
    · have hbelow := hlater.wired.connectedFromTop.of_reflTransGen hd hconnected'
      rcases (hconnected hlater k (by simp)).1 hbelow with hold | hmem
      · simp [hold] at hk
      · have hnodup := hline.nodup hwired.sound
        rw [List.nodup_append] at hnodup
        exact hnodup.2.2 k (List.mem_filter.1 hmem).1 k List.mem_cons_self rfl

theorem follow_followed (phandle : UInt32) (hwired : bus.registry.Wired bus.connections) :
    Ensures (follow phandle) bus (fun target later => Followed bus (.ok target later))
      fun later => ∀ e, Followed bus (.error e later) := by
  have hfailed : ∀ e, Followed bus (.error e bus) := fun e => .failed rfl rfl
  rw [follow, ensures_bind, ensures_ask]
  refine ⟨fun found _ => ?_, fun _ _ => hfailed⟩
  cases found with
  | none => exact hfailed
  | some n =>
    rw [ensures_bind, ensures_onRegistry]
    apply (Registry.deviceOf_ensures hwired.sound).imp
    · intro target registry hend
      obtain ⟨hgrows, device, hd, -⟩ := hend
      let found : Bus (Recorded σ ι) ι := { bus with registry }
      have hfound : found.registry.Wired found.connections :=
        hwired.calm hgrows.steps hgrows.calm
      obtain ⟨line, hline⟩ := hfound.sound.exists_line hd
      have hsame : ∀ k ∈ line, found.registry.connected k = bus.registry.connected k := by
        intro k hk
        obtain ⟨_, hlive⟩ := hline.live k hk
        exact hgrows.calm.connected_eq hlive
      rw [ensures_bind]
      exact connect_followed hfound hline hsame rfl
    · exact fun _ _ _ => .failed rfl rfl

theorem parseDevice_followed {cursor : Cursor} {index : Nat}
    (hwired : bus.registry.Wired bus.connections) :
    Ensures (parseDevice h cursor index) bus (fun answer later => Followed bus (.ok answer.1 later))
      fun later => ∀ e, Followed bus (.error e later) := by
  have hfailed : ∀ e, Followed bus (.error e bus) := fun e => .failed rfl rfl
  rw [parseDevice, ensures_bind, ensures_ask]
  refine ⟨fun _ _ => ?_, fun _ _ => hfailed⟩
  rw [ensures_bind, ensures_lift]
  refine ⟨fun read _ => ?_, fun _ _ => hfailed⟩
  rw [ensures_bind]
  exact follow_followed read.1 hwired

omit [Platform σ ι] in
private theorem followed_of_ensures {x : BusM (Recorded σ ι) ι Handle}
    (hx : Ensures x bus (fun target later => Followed bus (.ok target later))
      fun later => ∀ e, Followed bus (.error e later)) : Followed bus (x bus) := by
  unfold Ensures at hx
  cases hend : x bus with
  | ok target later => simpa [hend] using hx
  | error e later => exact (by simpa [hend] using hx : ∀ e, Followed bus (.error e later)) e

/-- Operations lead from one bus to the other, and the record shows all calls in between. -/
def Onward : Bus (Recorded σ ι) ι → Bus (Recorded σ ι) ι → Prop :=
  Relation.ReflTransGen fun bus next =>
    ∃ op : Operation (Recorded σ ι) ι, op.KeepsRecord ∧ op.after bus = next

/-- Operations lead to the bus from the one that knows the root of `b` alone, and the record shows
all calls since. -/
def Recording (b : Blob) (bus : Bus (Recorded σ ι) ι) : Prop :=
  ∃ inner start, ofBlob b { inner } = .ok start ∧ Onward start bus

namespace Recording

variable {b : Blob}

theorem trans (hbus : Recording b bus) (hlater : Onward bus later) : Recording b later := by
  obtain ⟨inner, start, hstart, hbus⟩ := hbus
  exact ⟨inner, start, hstart, hbus.trans hlater⟩

omit [Platform σ ι] in
private theorem of_start {inner : σ} (hstart : ofBlob b { inner } = .ok bus) :
    bus.registry.Wired bus.connections ∧ bus.connections = [] := by
  obtain ⟨registry, hregistry, hof⟩ := bind_eq_ok_iff.1 hstart
  obtain rfl := Except.ok.inj hof
  exact ⟨Registry.wired_ofBlob hregistry, rfl⟩

theorem wired (hbus : Recording b bus) : bus.registry.Wired bus.connections := by
  obtain ⟨inner, start, hstart, hrun⟩ := hbus
  induction hrun with
  | refl => exact (of_start hstart).1
  | tail _ hop ih =>
    obtain ⟨op, hop, rfl⟩ := hop
    exact (after_appends hop ih).wired

/-- Every device whose driver was connected was live at a time of the run when the record already
said so. -/
theorem exists_live (hbus : Recording b bus) : ∀ k ∈ bus.connections,
    ∃ between more device, Recording b between ∧ Onward between bus ∧ k ∈ between.connections ∧
      bus.connections = between.connections ++ more ∧
      between.registry.device? k = some device := by
  obtain ⟨inner, start, hstart, hrun⟩ := hbus
  induction hrun with
  | refl => simp [(of_start hstart).2]
  | @tail before _ hrun hop ih =>
    obtain ⟨op, hop, rfl⟩ := hop
    have hbefore : Recording b before := ⟨inner, start, hstart, hrun⟩
    have hstep : Onward before (op.after before) := .single ⟨op, hop, rfl⟩
    obtain ⟨more, hmore, hlive⟩ := (after_appends hop hbefore.wired).connections
    intro k hk
    rcases List.mem_append.1 (hmore ▸ hk) with hold | hnew
    · obtain ⟨between, yet, device, hbetween, honward, hmem, hyet, hd⟩ := ih k hold
      refine ⟨between, yet ++ more, device, hbetween, honward.trans hstep, hmem, ?_, hd⟩
      rw [hmore, hyet, List.append_assoc]
    · obtain ⟨device, hd⟩ := hlive k hnew
      exact ⟨_, [], device, hbefore.trans hstep, .refl, hk, (List.append_nil _).symm, hd⟩

/-- The device above one that was connected is the root or was connected earlier. -/
theorem exists_under {outer inner : List Handle} (hbus : Recording b bus)
    (hsplit : bus.connections = outer ++ k :: inner) :
    ∃ between p, Recording b between ∧ Onward between bus ∧ between.registry.HasParent k p ∧
      (p = Registry.rootHandle ∨ p ∈ outer) := by
  obtain ⟨between, more, device, hbetween, honward, hmem, hmore, hd⟩ :=
    hbus.exists_live k (by simp [hsplit])
  have hroot : k ≠ Registry.rootHandle := by
    rintro rfl
    exact hbetween.wired.root_notMem hmem
  obtain ⟨p, _, hparent, -⟩ := hbetween.wired.sound.parent k device hd hroot
  obtain ⟨before, after, hat⟩ := List.append_of_mem hmem
  have hunder := hbetween.wired.under k p before after ⟨device, hd, hparent⟩ hat
  -- A device is connected once, so both lists are split at the same place.
  obtain rfl : before = outer := by
    have hnodup := hbus.wired.nodup
    rw [hsplit, List.nodup_middle, List.nodup_cons, List.mem_append, not_or] at hnodup
    rw [hmore, hat, List.append_assoc, List.cons_append] at hsplit
    exact ((List.append_cons_inj_of_notMem hnodup.1.1 hnodup.1.2).1 hsplit.symm).1.symm
  exact ⟨between, p, hbetween, honward, ⟨device, hd, hparent⟩, hunder⟩

/-- Throughout a run, drivers are connected once for each device, never for the root, and never
before that of the device above. A live device is connected exactly if it is the root or its driver
was connected, so all that is above a connected device is connected. Whoever follows a phandle
connects what of the line of the target is not connected yet, from the outermost on, up to the
first refusal. -/
theorem connected_in_order (hbus : Recording b bus) :
    (bus.connections.Nodup ∧ Registry.rootHandle ∉ bus.connections) ∧
    (∀ outer k inner, bus.connections = outer ++ k :: inner →
      ∃ between p, Recording b between ∧ Onward between bus ∧ between.registry.HasParent k p ∧
        (p = Registry.rootHandle ∨ p ∈ outer)) ∧
    (∀ h device, bus.registry.device? h = some device →
      (device.connected = true ↔ h = Registry.rootHandle ∨ h ∈ bus.connections)) ∧
    (∀ h k, Relation.ReflTransGen bus.registry.HasParent h k → bus.registry.connected h →
      bus.registry.connected k) ∧
    (∀ h cursor index, Followed bus ((Prod.fst <$> parseDevice h cursor index) bus)) ∧
    ∀ h name index, Followed bus (Bus.device h name index bus) := by
  have hwired := hbus.wired
  refine ⟨⟨hwired.nodup, hwired.root_notMem⟩, fun _ _ _ => hbus.exists_under,
    hwired.connected_iff, fun h k => hwired.connectedFromTop.of_reflTransGen, ?_, ?_⟩
  · intro h cursor index
    refine followed_of_ensures ?_
    rw [map_eq_pure_bind, ensures_bind]
    exact parseDevice_followed hwired
  · intro h name index
    refine followed_of_ensures ?_
    rw [Bus.device, ensures_bind, ensures_ask]
    refine ⟨fun cursor _ => ?_, fun _ _ e => .failed rfl rfl⟩
    rw [ensures_bind]
    exact parseDevice_followed hwired

end Recording

private theorem onward_afterAll {ops : List (Operation (Recorded σ ι) ι)}
    (hops : ∀ op ∈ ops, op.KeepsRecord) (bus : Bus (Recorded σ ι) ι) :
    Onward bus (afterAll ops bus) := by
  induction ops generalizing bus with
  | nil => exact .refl
  | cons op ops ih =>
    obtain ⟨hop, hops⟩ := List.forall_mem_cons.1 hops
    exact .head ⟨op, hop, rfl⟩ (ih hops _)

/-- The operations of a run that connects a clock under a bus: the driver of the clock is refused
first, and then no longer. -/
def refusedOnce : List (Operation (Recorded Simulated FileNumber) FileNumber) :=
  [.findDevice "/serial", .reference ⟨1⟩ "clocks" 0,
    .changePlatform fun recorded =>
      { recorded with inner := { recorded.inner with refusedDrivers := [] } }]

/-- The bus of the clock is connected once, and then the clock alone. -/
theorem connected_in_order_clocked : ∃ bus : Bus (Recorded Simulated FileNumber) FileNumber,
    Recording Tree.clocked.blob bus ∧
      (bus.attempts = [⟨2⟩, ⟨3⟩] ∧ bus.connections = [⟨2⟩]) ∧
      (bus.connections.Nodup ∧ Registry.rootHandle ∉ bus.connections) ∧
      Followed bus (Bus.device ⟨1⟩ "clocks" 0 bus) ∧
      ((Operation.reference ⟨1⟩ "clocks" 0).after bus).attempts = [⟨2⟩, ⟨3⟩, ⟨3⟩] ∧
      ((Operation.reference ⟨1⟩ "clocks" 0).after bus).connections = [⟨2⟩, ⟨3⟩] := by
  let inner : Simulated := { cpu := { label := "" }, refusedDrivers := ["clock"] }
  have hops : ∀ op ∈ refusedOnce, op.KeepsRecord := by simp [refusedOnce, Operation.KeepsRecord]
  obtain ⟨start, hstart, hrun⟩ : ∃ start : Bus (Recorded Simulated FileNumber) FileNumber,
      ofBlob Tree.clocked.blob { inner } = .ok start ∧
        let bus := afterAll refusedOnce start
        let later := (Operation.reference ⟨1⟩ "clocks" 0).after bus
        decide (bus.attempts = [⟨2⟩, ⟨3⟩] ∧ bus.connections = [⟨2⟩] ∧
          later.attempts = [⟨2⟩, ⟨3⟩, ⟨3⟩] ∧ later.connections = [⟨2⟩, ⟨3⟩]) = true :=
    exists_of_any (by decide +kernel)
  obtain ⟨hattempts, hconnections, hretried, hconnected⟩ := of_decide_eq_true hrun
  have hbus : Recording Tree.clocked.blob (afterAll refusedOnce start) :=
    ⟨inner, start, hstart, onward_afterAll hops start⟩
  obtain ⟨honce, -, -, -, -, hfollowed⟩ := hbus.connected_in_order
  exact ⟨_, hbus, ⟨hattempts, hconnections⟩, honce, hfollowed ⟨1⟩ "clocks" 0, hretried, hconnected⟩

end Bus

end DeviceTree
