import Mathlib.Logic.Relation
import DeviceTree.Proofs.Bus.Registry

/-!
# Sound registries

A registry keeps the tree of its devices three times: in the parents of the devices, in their lists
of children, and in the index by the offsets of their nodes. It is sound if the three agree with
each other and with the blob. A registry changes in four ways only, and each of them keeps it sound;
the change that creates a device does so because the parent comes from the blob.
-/
namespace DeviceTree

namespace Registry

variable {ι : Type} {r next : Registry ι} {h parent k : Handle} {device above : Device ι}
  {n : Node} {change : Device ι → Device ι}

/-- The slots, the index and the lists of children describe one tree, which is part of that of the
blob. -/
structure Sound (r : Registry ι) : Prop where
  root : ∃ device, r.device? rootHandle = some device ∧ device.parent = none ∧
    r.blob.root = .ok device.node ∧ r.blob.parent device.node = .ok none
  index : ∀ offset h, r.index[offset]? = some h ↔
    ∃ device, r.device? h = some device ∧ device.node.offset = offset
  parent : ∀ h device, r.device? h = some device → h ≠ rootHandle →
    ∃ parent above, device.parent = some parent ∧ r.device? parent = some above ∧
      parent.index < h.index ∧ r.blob.parent device.node = .ok (some above.node)
  children : ∀ h device, r.device? h = some device → device.children.Nodup ∧
    ∀ c, c ∈ device.children ↔ ∃ below, r.device? c = some below ∧ below.parent = some h

/-- The device `h` is live and was created under `parent`. -/
def HasParent (r : Registry ι) (h parent : Handle) : Prop :=
  ∃ device, r.device? h = some device ∧ device.parent = some parent

private theorem hasParent_add (hparent : r.device? parent = some above)
    (hunder : device.parent = some parent) : (r.add parent device).HasParent h k ↔
      r.HasParent h k ∨ h = r.nextHandle ∧ k = parent := by
  constructor
  · intro hchild
    obtain ⟨later, hh, hk⟩ := hchild
    rcases exists_of_device?_add hparent hh with ⟨rfl, rfl⟩ | ⟨old, hold, rfl⟩
    · exact .inr ⟨rfl, by simpa [hunder] using hk.symm⟩
    · exact .inl ⟨old, hold, hk⟩
  · intro hchild
    rcases hchild with ⟨old, hold, hk⟩ | ⟨rfl, rfl⟩
    · exact ⟨_, device?_add_of_live hparent hold, hk⟩
    · exact ⟨device, by rw [device?_add hparent, if_pos rfl], hunder⟩

private theorem hasParent_remove {c : Handle} (hparent : r.device? parent = some above)
    (hne : parent ≠ h) :
    (r.remove parent h device).HasParent c k ↔ r.HasParent c k ∧ c ≠ h := by
  constructor
  · intro hchild
    obtain ⟨later, hc, hk⟩ := hchild
    obtain ⟨hch, old, hold, rfl⟩ := exists_of_device?_remove hparent hne hc
    exact ⟨⟨old, hold, hk⟩, hch⟩
  · intro hchild
    obtain ⟨⟨old, hold, hk⟩, hch⟩ := hchild
    exact ⟨_, device?_remove_of_live hparent hne hold hch, hk⟩

namespace Sound

variable (hsound : r.Sound)

include hsound

theorem ne_rootHandle (hd : r.device? h = some device) (hparent : device.parent = some parent) :
    h ≠ rootHandle := by
  rintro rfl
  obtain ⟨root, hroot, hnone, -⟩ := hsound.root
  obtain rfl : root = device := by simpa [hroot] using hd
  simp [hnone] at hparent

theorem parent_live (hd : r.device? h = some device) (hparent : device.parent = some parent) :
    ∃ above, r.device? parent = some above ∧ parent.index < h.index ∧
      r.blob.parent device.node = .ok (some above.node) := by
  obtain ⟨p, above, hp, habove, hlt, hblob⟩ :=
    hsound.parent h device hd (hsound.ne_rootHandle hd hparent)
  obtain rfl : p = parent := by simpa [hp] using hparent
  exact ⟨above, habove, hlt, hblob⟩

theorem handleOf?_eq_some_iff :
    r.handleOf? n = some h ↔ ∃ device, r.device? h = some device ∧ device.node = n := by
  have hoffset : ∀ m : Node, m.offset = n.offset ↔ m = n := fun ⟨_⟩ => by cases n; simp
  simp only [handleOf?, hsound.index, hoffset]

theorem eq_of_offset_eq {other : Device ι} (hd : r.device? h = some device)
    (hk : r.device? k = some other) (hoffset : device.node.offset = other.node.offset) : h = k := by
  have hfirst := (hsound.index _ h).2 ⟨device, hd, rfl⟩
  have hsecond := (hsound.index _ k).2 ⟨other, hk, rfl⟩
  simpa [hoffset, hsecond, eq_comm] using hfirst

/-- The blob has a parent or none for the node of every live device; the search for it does not
fail. -/
theorem exists_parent (hd : r.device? h = some device) :
    ∃ above, r.blob.parent device.node = .ok above := by
  by_cases hroot : h = rootHandle
  · subst hroot
    obtain ⟨root, hroot, -, -, hparent⟩ := hsound.root
    obtain rfl : root = device := by simpa [hroot] using hd
    exact ⟨none, hparent⟩
  · obtain ⟨_, above, -, -, -, hparent⟩ := hsound.parent h device hd hroot
    exact ⟨some above.node, hparent⟩

theorem children_iff (hd : r.device? h = some device) :
    device.children.Nodup ∧ ∀ c, c ∈ device.children ↔ r.HasParent c h :=
  hsound.children h device hd

/-- No live device is below the next handle. -/
theorem not_hasParent_nextHandle : ¬r.HasParent k r.nextHandle := by
  intro hchild
  obtain ⟨below, hbelow, hk⟩ := hchild
  obtain ⟨_, hlive, -⟩ := hsound.parent_live hbelow hk
  exact ne_nextHandle hlive rfl

/-- A device is created under the parent that the blob gives its node. -/
theorem add (hparent : r.device? parent = some above) (hfresh : r.handleOf? n = none)
    (hbelow : r.blob.parent n = .ok (some above.node))
    (hnew : r.newDevice parent n = .ok device) : (r.add parent device).Sound := by
  obtain ⟨rfl, hunder, hbarren, -⟩ := newDevice_eq_ok hnew
  have hlt := index_lt_of_device? hparent
  constructor
  case root =>
    obtain ⟨root, hroot, htop⟩ := hsound.root
    exact ⟨_, device?_add_of_live hparent hroot, htop⟩
  case index =>
    intro offset k
    rw [index_add]
    constructor
    · intro hk
      split at hk
      case isTrue heq =>
        obtain rfl := Option.some.inj hk
        exact ⟨device, by rw [device?_add hparent, if_pos rfl], heq⟩
      case isFalse =>
        obtain ⟨old, hold, hoffset⟩ := (hsound.index _ _).1 hk
        exact ⟨_, device?_add_of_live hparent hold, hoffset⟩
    · intro hlive
      obtain ⟨later, hk, rfl⟩ := hlive
      rcases exists_of_device?_add hparent hk with ⟨rfl, rfl⟩ | ⟨old, hold, rfl⟩
      · rw [if_pos rfl]
      · have hfound := (hsound.index _ _).2 ⟨old, hold, rfl⟩
        have hne : device.node.offset ≠ old.node.offset := by
          intro heq
          simp [handleOf?, heq, hfound] at hfresh
        rw [if_neg hne, hfound]
  case parent =>
    intro k later hk hroot
    rcases exists_of_device?_add hparent hk with ⟨rfl, rfl⟩ | ⟨old, hold, rfl⟩
    · exact ⟨parent, _, hunder, device?_add_of_live hparent hparent, hlt, hbelow⟩
    · obtain ⟨p, top, hp, htop, hindex, hblob⟩ := hsound.parent k old hold hroot
      exact ⟨p, _, hp, device?_add_of_live hparent htop, hindex, hblob⟩
  case children =>
    intro k later hk
    change later.children.Nodup ∧ ∀ c, c ∈ later.children ↔ (r.add parent device).HasParent c k
    simp only [hasParent_add hparent hunder]
    rcases exists_of_device?_add hparent hk with ⟨rfl, rfl⟩ | ⟨old, hold, rfl⟩
    · have hne := (ne_nextHandle hparent).symm
      simp [hbarren, hsound.not_hasParent_nextHandle, hne]
    · obtain ⟨hnodup, hmem⟩ := hsound.children_iff hold
      by_cases heq : k = parent
      · have hnew : r.nextHandle ∉ old.children := by
          intro hin
          obtain ⟨_, hlive, -⟩ := (hmem _).1 hin
          exact ne_nextHandle hlive rfl
        simp only [if_pos heq]
        constructor
        · rw [List.nodup_append]
          refine ⟨hnodup, by simp, ?_⟩
          rintro c hc _ hnext rfl
          exact hnew (List.mem_singleton.1 hnext ▸ hc)
        · intro c
          simp [hmem, heq]
      · simp [heq, hnodup, hmem]

/-- Without live children, a device leaves no trace of its own. -/
theorem remove (hd : r.device? h = some device) (hunder : device.parent = some parent)
    (hbarren : device.children = []) : (r.remove parent h device).Sound := by
  obtain ⟨above, hparent, hlt, -⟩ := hsound.parent_live hd hunder
  have hne : parent ≠ h := by
    rintro rfl
    omega
  have hnone : ∀ c, ¬r.HasParent c h := by
    intro c hc
    have hmem := ((hsound.children_iff hd).2 c).2 hc
    simp [hbarren] at hmem
  constructor
  case root =>
    obtain ⟨root, hroot, htop⟩ := hsound.root
    have hrooth := (hsound.ne_rootHandle hd hunder).symm
    exact ⟨_, device?_remove_of_live hparent hne hroot hrooth, htop⟩
  case index =>
    intro offset k
    rw [index_remove]
    constructor
    · intro hk
      split at hk
      · cases hk
      case isFalse hoffset =>
        obtain ⟨old, hold, rfl⟩ := (hsound.index _ _).1 hk
        have hkh : k ≠ h := by
          rintro rfl
          obtain rfl : old = device := by simpa [hold] using hd
          exact hoffset rfl
        exact ⟨_, device?_remove_of_live hparent hne hold hkh, rfl⟩
    · intro hlive
      obtain ⟨later, hk, rfl⟩ := hlive
      obtain ⟨hkh, old, hold, rfl⟩ := exists_of_device?_remove hparent hne hk
      have hoffset : device.node.offset ≠ old.node.offset :=
        fun heq => hkh (hsound.eq_of_offset_eq hd hold heq).symm
      rw [if_neg hoffset]
      exact (hsound.index _ _).2 ⟨old, hold, rfl⟩
  case parent =>
    intro k later hk hroot
    obtain ⟨hkh, old, hold, rfl⟩ := exists_of_device?_remove hparent hne hk
    obtain ⟨p, top, hp, htop, hindex, hblob⟩ := hsound.parent k old hold hroot
    have hph : p ≠ h := by
      rintro rfl
      exact hnone k ⟨old, hold, hp⟩
    exact ⟨p, _, hp, device?_remove_of_live hparent hne htop hph, hindex, hblob⟩
  case children =>
    intro k later hk
    change later.children.Nodup ∧ ∀ c, c ∈ later.children ↔ (r.remove parent h device).HasParent c k
    simp only [hasParent_remove hparent hne]
    obtain ⟨hkh, old, hold, rfl⟩ := exists_of_device?_remove hparent hne hk
    obtain ⟨hnodup, hmem⟩ := hsound.children_iff hold
    by_cases heq : k = parent
    · simp only [if_pos heq, List.mem_filter, hmem, decide_eq_true_eq]
      exact ⟨hnodup.filter _, fun _ => trivial⟩
    · simp only [if_neg heq, hmem]
      refine ⟨hnodup, fun c => ⟨fun hc => ⟨hc, ?_⟩, And.left⟩⟩
      -- The removed device is below its own parent, not below `k`.
      rintro rfl
      obtain ⟨below, hbelow, hbelowk⟩ := hc
      obtain rfl : below = device := by simpa [hbelow] using hd
      exact heq (Option.some.inj (hbelowk.symm.trans hunder))

theorem modify (hchange : ∀ d : Device ι, (change d).node = d.node ∧ (change d).parent = d.parent ∧
    (change d).children = d.children) : (r.modify h change).Sound := by
  have hforth : ∀ k d, r.device? k = some d → ∃ d', (r.modify h change).device? k = some d' ∧
      d'.node = d.node ∧ d'.parent = d.parent ∧ d'.children = d.children := by
    intro k d hk
    rw [device?_modify, hk]
    split
    · exact ⟨change d, rfl, hchange d⟩
    · exact ⟨d, rfl, rfl, rfl, rfl⟩
  have hback : ∀ k d', (r.modify h change).device? k = some d' → ∃ d, r.device? k = some d ∧
      d'.node = d.node ∧ d'.parent = d.parent ∧ d'.children = d.children := by
    intro k d' hk
    obtain ⟨d, hd, rfl | rfl⟩ := exists_of_device?_modify hk
    · exact ⟨d', hd, rfl, rfl, rfl⟩
    · exact ⟨d, hd, hchange d⟩
  constructor
  case root =>
    obtain ⟨root, hroot, hnone, hblob⟩ := hsound.root
    obtain ⟨later, hlater, hnode, hparent, -⟩ := hforth _ _ hroot
    exact ⟨later, hlater, hparent.trans hnone, by rw [hnode]; exact hblob⟩
  case index =>
    intro offset k
    change r.index[offset]? = some k ↔ _
    rw [hsound.index]
    constructor
    · intro hlive
      obtain ⟨old, hold, rfl⟩ := hlive
      obtain ⟨later, hlater, hnode, -⟩ := hforth _ _ hold
      exact ⟨later, hlater, congrArg Node.offset hnode⟩
    · intro hlive
      obtain ⟨later, hlater, rfl⟩ := hlive
      obtain ⟨old, hold, hnode, -⟩ := hback _ _ hlater
      exact ⟨old, hold, congrArg Node.offset hnode.symm⟩
  case parent =>
    intro k later hk hroot
    obtain ⟨old, hold, hnode, hparent, -⟩ := hback _ _ hk
    obtain ⟨p, top, hp, htop, hindex, hblob⟩ := hsound.parent k old hold hroot
    obtain ⟨top', htop', hnode', -⟩ := hforth _ _ htop
    exact ⟨p, top', hparent.trans hp, htop', hindex, by rw [hnode, hnode']; exact hblob⟩
  case children =>
    intro k later hk
    obtain ⟨old, hold, -, -, hchildren⟩ := hback _ _ hk
    obtain ⟨hnodup, hmem⟩ := hsound.children_iff hold
    rw [hchildren]
    refine ⟨hnodup, fun c => (hmem c).trans ⟨?_, ?_⟩⟩
    · intro hchild
      obtain ⟨below, hbelow, hparent⟩ := hchild
      obtain ⟨later, hlater, -, hparent', -⟩ := hforth _ _ hbelow
      exact ⟨later, hlater, hparent'.trans hparent⟩
    · intro hchild
      obtain ⟨later, hlater, hparent⟩ := hchild
      obtain ⟨below, hbelow, -, hparent', -⟩ := hback _ _ hlater
      exact ⟨below, hbelow, hparent'.symm.trans hparent⟩

/-- The parent of a live device is older, so the way up ends, and the root alone has no parent. -/
theorem reaches_root (hd : r.device? h = some device) :
    Relation.ReflTransGen r.HasParent h rootHandle := by
  obtain ⟨i⟩ := h
  induction i using Nat.strongRecOn generalizing device with
  | _ i ih =>
    by_cases hroot : (⟨i⟩ : Handle) = rootHandle
    · rw [hroot]
    · obtain ⟨⟨j⟩, above, hparent, habove, hlt, -⟩ := hsound.parent _ device hd hroot
      exact .head ⟨device, hd, hparent⟩ (ih j hlt habove)

end Sound

theorem ofBlob_eq_ok {b : Blob} (hr : Registry.ofBlob b = .ok r) :
    ∃ root cells device, b.root = .ok root ∧ b.cells root none = .ok cells ∧
      (Device.ofNode b root none cells : Except ParseError (Device ι)) = .ok device ∧
      r.blob = b ∧ (∀ k, r.device? k =
        if k = rootHandle then some { device with connected := true } else none) ∧
      ∀ offset, r.index[offset]? = if root.offset = offset then some rootHandle else none := by
  obtain ⟨root, hroot, hr⟩ := bind_eq_ok_iff.1 hr
  obtain ⟨cells, hcells, hr⟩ := bind_eq_ok_iff.1 hr
  obtain ⟨device, hdevice, hr⟩ := bind_eq_ok_iff.1 hr
  replace hr := Except.ok.inj hr
  refine ⟨root, cells, device, liftM_eq_ok_iff.1 hroot, hcells, liftM_eq_ok_iff.1 hdevice,
    ?_, ?_, ?_⟩
  · rw [← hr]
  · rintro ⟨_ | i⟩ <;> subst hr <;> simp [device?, rootHandle]
  · intro offset
    subst hr
    simp [Std.TreeMap.getElem?_insert]

theorem sound_ofBlob {b : Blob} (hr : Registry.ofBlob b = .ok r) : r.blob = b ∧ r.Sound := by
  obtain ⟨root, cells, device, hroot, -, hdevice, hblob, hview, hindex⟩ := ofBlob_eq_ok hr
  obtain ⟨rfl, hparent, -, hchildren, -, -, name, hname⟩ := ofNode_eq_ok hdevice
  obtain ⟨start, hstart⟩ : ∃ start, b.contents device.node.offset = .ok start :=
    ⟨_, bind_eq_ok_iff.2 ⟨name, hname, rfl⟩⟩
  have htop : b.parent device.node = .ok none :=
    Blob.parent_eq_ok_iff.2 ⟨[], Blob.met_root hroot hstart, rfl⟩
  refine ⟨hblob, ?_⟩
  constructor
  case root =>
    rw [hview, if_pos rfl, hblob]
    exact ⟨_, rfl, hparent, hroot, htop⟩
  case index => grind
  case parent => grind
  case children => grind

/-- The ways in which a registry changes. -/
inductive Step : Registry ι → Registry ι → Prop
  /-- The device of `n` is created, and the blob says that its parent is the right one. -/
  | create {r : Registry ι} {n : Node} {parent : Handle} {above device : Device ι}
      (live : r.device? parent = some above) (fresh : r.handleOf? n = none)
      (below : r.blob.parent n = .ok (some above.node))
      (new : r.newDevice parent n = .ok device) : Step r (r.add parent device)
  /-- A device without live children is destroyed. -/
  | destroy {r : Registry ι} {h parent : Handle} {device : Device ι}
      (live : r.device? h = some device) (under : device.parent = some parent)
      (barren : device.children = []) : Step r (r.remove parent h device)
  | exchangeIO (r : Registry ι) (h : Handle) (io : Option ι) :
      Step r (r.modify h fun device => { device with io })
  | connect (r : Registry ι) (h : Handle) :
      Step r (r.modify h fun device => { device with connected := true })

namespace Step

theorem sound (hstep : Step r next) (hsound : r.Sound) : next.Sound := by
  cases hstep with
  | create live fresh below new => exact hsound.add live fresh below new
  | destroy live under barren => exact hsound.remove live under barren
  | exchangeIO h io => exact hsound.modify fun _ => ⟨rfl, rfl, rfl⟩
  | connect h => exact hsound.modify fun _ => ⟨rfl, rfl, rfl⟩

theorem blob_eq (hstep : Step r next) : next.blob = r.blob := by
  cases hstep <;> rfl

theorem size_le (hstep : Step r next) : r.slots.size ≤ next.slots.size := by
  cases hstep <;> simp [Registry.add, Registry.remove, Registry.modify]

/-- What is live after a change was live before, and nothing of it changes but whether it is
connected, what is below it and its register I/O; or it is the one device that was created, below
the device of its parent. -/
theorem exists_of_device? (hstep : Step r next) (hsound : r.Sound)
    (hk : next.device? k = some device) :
    (∃ old, r.device? k = some old ∧ device = { old with
      connected := device.connected, children := device.children, io := device.io }) ∨
      k = r.nextHandle ∧ ∃ parent above, r.device? parent = some above ∧
        r.handleOf? device.node = none ∧ r.blob.parent device.node = .ok (some above.node) ∧
        r.newDevice parent device.node = .ok device := by
  cases hstep with
  | create live fresh below new =>
    rcases exists_of_device?_add live hk with ⟨rfl, rfl⟩ | ⟨old, hold, rfl⟩
    · obtain ⟨rfl, -⟩ := newDevice_eq_ok new
      exact .inr ⟨rfl, _, _, live, fresh, below, new⟩
    · exact .inl ⟨old, hold, rfl⟩
  | destroy live under barren =>
    obtain ⟨above, habove, hindex, -⟩ := hsound.parent_live live under
    obtain ⟨-, old, hold, rfl⟩ := exists_of_device?_remove habove (by rintro rfl; omega) hk
    exact .inl ⟨old, hold, rfl⟩
  | exchangeIO h io =>
    obtain ⟨old, hold, rfl | rfl⟩ := exists_of_device?_modify hk <;> exact .inl ⟨_, hold, rfl⟩
  | connect h =>
    obtain ⟨old, hold, rfl | rfl⟩ := exists_of_device?_modify hk <;> exact .inl ⟨_, hold, rfl⟩

/-- A handle that was given out stays with its device; once the device is gone, it stays gone. -/
theorem device?_eq (hstep : Step r next) (hsound : r.Sound) (hlt : k.index < r.slots.size)
    (hk : next.device? k = some device) : ∃ old, r.device? k = some old ∧
      device = { old with connected := device.connected, children := device.children,
                          io := device.io } := by
  rcases hstep.exists_of_device? hsound hk with hold | ⟨rfl, -⟩
  · exact hold
  · exact absurd hlt (Nat.lt_irrefl _)

end Step

def Steps : Registry ι → Registry ι → Prop :=
  Relation.ReflTransGen Step

namespace Steps

theorem refl (r : Registry ι) : Steps r r :=
  Relation.ReflTransGen.refl

theorem single (hstep : Step r next) : Steps r next :=
  Relation.ReflTransGen.single hstep

theorem trans {last : Registry ι} (hfirst : Steps r next) (hlast : Steps next last) :
    Steps r last :=
  Relation.ReflTransGen.trans hfirst hlast

theorem sound (hsteps : Steps r next) (hsound : r.Sound) : next.Sound := by
  induction hsteps with
  | refl => exact hsound
  | tail _ hstep ih => exact hstep.sound ih

theorem blob_eq (hsteps : Steps r next) : next.blob = r.blob := by
  induction hsteps with
  | refl => rfl
  | tail _ hstep ih => exact hstep.blob_eq.trans ih

theorem size_le (hsteps : Steps r next) : r.slots.size ≤ next.slots.size := by
  induction hsteps with
  | refl => exact Nat.le_refl _
  | tail _ hstep ih => exact Nat.le_trans ih hstep.size_le

/-- No handle is ever given to another device. -/
theorem device?_eq (hsteps : Steps r next) (hsound : r.Sound) (hlt : k.index < r.slots.size)
    (hk : next.device? k = some device) : ∃ old, r.device? k = some old ∧
      device = { old with connected := device.connected, children := device.children,
                          io := device.io } := by
  induction hsteps generalizing device with
  | refl => exact ⟨device, hk, rfl⟩
  | tail hbefore hstep ih =>
    have hlt' := Nat.lt_of_lt_of_le hlt (Steps.size_le hbefore)
    obtain ⟨between, hbetween, heq⟩ := hstep.device?_eq (Steps.sound hbefore hsound) hlt' hk
    obtain ⟨old, hold, heq'⟩ := ih hbetween
    refine ⟨old, hold, ?_⟩
    rw [heq, heq']

end Steps

end Registry

end DeviceTree
