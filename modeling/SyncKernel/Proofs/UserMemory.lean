import Mathlib
import SyncKernel.Memory.UserAccess

/-!
# User memory

The functions on memory walk pages and bytes one after the other. Here they are described address
by address. A check succeeds exactly if every address is on a page that allows the access
(`check_eq_ok`), and where a check for writing succeeds the write does too (`exists_userWrite`).

Whatever operations made a memory, no two pages of one of its address spaces share a frame
(`Made.sound`). So a write changes the bytes at its own addresses and no others
(`Sound.byte?_userWrite`), and bytes that stand in memory are what is read (`userRead_of_holds`).
-/

namespace SyncKernel.Memory

variable {m m' : Memory} {s : SpaceId} {need : PageFlags} {a c : Nat} {va : UInt64} {len : Nat}
  {b : UInt8} {bs : List UInt8}

/-! ## Permissions -/

/-- The page of an address is mapped and has the permissions `need`. -/
def Allows (m : Memory) (s : SpaceId) (need : PageFlags) (a : Nat) : Prop :=
  ∃ p, m.pageAt? s a = some p ∧ p.flags.contains need = true

/-- A run of pages allows an access exactly if each of them is there with the permissions. -/
theorem pagesAllow_iff {page count : Nat} : m.pagesAllow s need page count = true ↔
    ∀ i < count, ∃ p, m.pages[(⟨s, page + i⟩ : PageKey)]? = some p ∧
      p.flags.contains need = true := by
  induction count generalizing page with
  | zero => simp [pagesAllow]
  | succ count ih =>
    rw [pagesAllow, Bool.and_eq_true, ih, Option.any_eq_true]
    constructor
    · rintro ⟨h₀, h⟩ i hi
      cases i with
      | zero => exact h₀
      | succ i =>
        have hsucc : page + (i + 1) = page + 1 + i := by omega
        rw [hsucc]
        exact h i (by omega)
    · intro h
      refine ⟨h 0 (by omega), fun i hi => ?_⟩
      have hsucc : page + 1 + i = page + (i + 1) := by omega
      rw [hsucc]
      exact h (i + 1) (by omega)

/-- A check succeeds if the addresses end within user memory and are all on user pages that allow
the access. -/
theorem check_eq_ok : m.check s va len need = .ok () ↔
    va.toNat + len ≤ userLimit ∧
      ∀ i < len, m.Allows s (need.union .userPage) (va.toNat + i) := by
  unfold check
  dsimp only
  split
  · next h => simp [Nat.not_le.2 h]
  next h =>
  have hstop : va.toNat + len ≤ userLimit := Nat.not_lt.1 h
  split
  · next h₀ =>
    subst h₀
    exact iff_of_true rfl ⟨hstop, fun i hi => absurd hi (Nat.not_lt_zero i)⟩
  next h₀ =>
  rw [ite_eq_iff]
  simp only [pagesAllow_iff, reduceCtorEq, and_true, and_false, or_false]
  unfold Allows pageAt? pageSize
  constructor
  · refine fun hpages => ⟨hstop, fun i hi => ?_⟩
    -- the page of an address is one of those that are checked
    obtain ⟨p, hp, hflags⟩ := hpages ((va.toNat + i) / 4096 - va.toNat / 4096) (by omega)
    have hpage : va.toNat / 4096 + ((va.toNat + i) / 4096 - va.toNat / 4096) =
        (va.toNat + i) / 4096 := by omega
    rw [hpage] at hp
    exact ⟨p, hp, hflags⟩
  · rintro ⟨-, hall⟩ j hj
    -- each page that is checked holds an address
    obtain ⟨p, hp, hflags⟩ :=
      hall (max va.toNat ((va.toNat / 4096 + j) * 4096) - va.toNat) (by omega)
    have hpage : (va.toNat + (max va.toNat ((va.toNat / 4096 + j) * 4096) - va.toNat)) / 4096 =
        va.toNat / 4096 + j := by omega
    rw [hpage] at hp
    exact ⟨p, hp, hflags⟩

/-- An address on a page that allows some access is mapped. -/
theorem Allows.physical? (h : m.Allows s need a) : ∃ x, m.physical? s a = some x := by
  obtain ⟨p, hp, -⟩ := h
  exact ⟨_, by rw [Memory.physical?, hp]; rfl⟩

/-- An address that allows an access allows those that need less. -/
theorem Allows.mono {need' : PageFlags} (h : m.Allows s need a)
    (hneed : need.contains need' = true) : m.Allows s need' a := by
  obtain ⟨p, hp, hflags⟩ := h
  exact ⟨p, hp, PageFlags.contains_trans hflags hneed⟩

/-! ## Writing -/

/-- Mapped addresses can be written. -/
theorem exists_setBytes? (h : ∀ i < bs.length, ∃ x, m.physical? s (a + i) = some x) :
    ∃ m', m.setBytes? s a bs = some m' := by
  induction bs generalizing m a with
  | nil => exact ⟨m, rfl⟩
  | cons b bs ih =>
    obtain ⟨x, hx⟩ := h 0 (by simp)
    rw [Nat.add_zero] at hx
    rw [setBytes?, hx]
    refine ih fun i hi => ?_
    obtain ⟨y, hy⟩ := h (i + 1) (by simpa using hi)
    have hsucc : a + 1 + i = a + (i + 1) := by omega
    exact ⟨y, hsucc ▸ hy⟩

/-- Where a check for writing succeeds, the write does too. -/
theorem exists_userWrite (h : m.userCheck s va bs.length .toWrite = .ok ()) :
    ∃ m', m.userWrite s va bs = .ok m' := by
  rw [userCheck] at h
  obtain ⟨hstop, hall⟩ := check_eq_ok.1 h
  obtain ⟨m₁, hm₁⟩ := exists_setBytes? fun i hi => (hall i hi).physical?
  have hsize : va.toNat + bs.length < UInt64.size := by
    have hlimit : userLimit < UInt64.size := by decide
    omega
  refine ⟨m₁.leave, ?_⟩
  rw [userWrite, h]
  simp [store, hsize, hm₁, Except.map]

/-! ## Frames -/

/-- A memory that operations made from one with no address spaces. -/
inductive Made : Memory → Prop
  /-- There are no address spaces. -/
  | empty : Made {}
  /-- An address space was added. -/
  | newSpace {m : Memory} (made : Made m) : Made m.newSpace.2
  /-- Pages were mapped. -/
  | map {m m' : Memory} {s : SpaceId} {va len : UInt64} {flags : PageFlags} (made : Made m)
      (h : m.map s va len flags = .ok m') : Made m'
  /-- A page was shared. -/
  | share {m m' : Memory} {source target : SpaceId} {va : UInt64} {flags : PageFlags}
      (made : Made m) (h : m.share source target va flags = .ok m') : Made m'
  /-- Bytes were written. -/
  | store {m m' : Memory} {s : SpaceId} {va : UInt64} {bs : List UInt8} (made : Made m)
      (h : m.store s va bs = .ok m') : Made m'
  /-- An address space was switched in. -/
  | enter {m : Memory} (s : SpaceId) (made : Made m) : Made (m.enter s)
  /-- An address space was switched out. -/
  | leave {m : Memory} (made : Made m) : Made m.leave

/-- A frame is never given out twice: the frames of pages have been given out, and pages that share
one have the same number. -/
structure Sound (m : Memory) : Prop where
  given : ∀ (key : PageKey) (p : Page), m.pages[key]? = some p → p.frame < m.nextFrame
  once : ∀ (key : PageKey) (p : Page) (key' : PageKey) (p' : Page), m.pages[key]? = some p →
    m.pages[key']? = some p' → p.frame = p'.frame → key.page = key'.page

/-- Mapping a page changes what is found under its own key only. -/
theorem getElem?_insert_page {pages : Std.ExtTreeMap PageKey Page PageKey.order}
    {key key' : PageKey} {p : Page} :
    (pages.insert key p)[key']? = if key = key' then some p else pages[key']? := by
  rw [Std.ExtTreeMap.getElem?_insert]
  simp only [Std.LawfulEqCmp.compare_eq_iff_eq]

/-- A page may be mapped to a frame that is mapped under its number or nowhere. -/
theorem Sound.insert (h : m.Sound) {key : PageKey} {p : Page} {next : Nat}
    (hnext : m.nextFrame ≤ next) (hgiven : p.frame < next)
    (honce : ∀ (key' : PageKey) (p' : Page), m.pages[key']? = some p' → p.frame = p'.frame →
      key.page = key'.page) :
    ({ m with pages := m.pages.insert key p, nextFrame := next } : Memory).Sound where
  given key' p' hp' := by
    simp only [getElem?_insert_page] at hp'
    split at hp'
    · cases hp'
      exact hgiven
    · exact (h.given key' p' hp').trans_le hnext
  once key₁ p₁ key₂ p₂ h₁ h₂ hframe := by
    simp only [getElem?_insert_page] at h₁ h₂
    split at h₁ <;> split at h₂
    · next e₁ e₂ => rw [← e₁, ← e₂]
    · next e₁ _ =>
      cases h₁
      exact e₁ ▸ honce key₂ p₂ h₂ hframe
    · next _ e₂ =>
      cases h₂
      exact e₂ ▸ (honce key₁ p₁ h₁ hframe.symm).symm
    · exact h.once key₁ p₁ key₂ p₂ h₁ h₂ hframe

/-- Mapping a page gives out no frame twice. -/
theorem Sound.mapPage (h : m.Sound) (flags : PageFlags) (page : Nat) :
    (m.mapPage s flags page).Sound :=
  h.insert (Nat.le_succ _) (Nat.lt_succ_self _) fun key' p' hp' hframe =>
    absurd hframe (h.given key' p' hp').ne'

/-- Mapping a range gives out no frame twice. -/
theorem Sound.map (h : m.Sound) {va len : UInt64} {flags : PageFlags}
    (hmap : m.map s va len flags = .ok m') : m'.Sound := by
  unfold Memory.map at hmap
  dsimp only at hmap
  split at hmap
  · cases hmap
  · cases hmap
    exact List.foldlRecOn _ _ h fun m hm page _ => hm.mapPage flags page

/-- Sharing a page gives out no frame twice. -/
theorem Sound.share (h : m.Sound) {source target : SpaceId} {flags : PageFlags}
    (hshare : m.share source target va flags = .ok m') : m'.Sound := by
  unfold Memory.share pageAt? at hshare
  split at hshare
  · cases hshare
  · next p hp =>
    cases hshare
    refine h.insert le_rfl (h.given _ p hp) fun key' p' hp' hframe => ?_
    have hpage := h.once _ p key' p' hp hp' hframe
    exact hpage

/-- A write changes bytes only. -/
theorem setBytes?_eq_some (h : m.setBytes? s a bs = some m') :
    m' = { m with bytes := m'.bytes } := by
  induction bs generalizing m a with
  | nil =>
    cases h
    rfl
  | cons b bs ih =>
    rw [setBytes?] at h
    split at h
    · have hrest := ih h
      exact hrest
    · cases h

/-- Bytes are stored exactly if their end is an address and all their places are mapped. -/
theorem store_eq_ok : m.store s va bs = .ok m' ↔
    va.toNat + bs.length < UInt64.size ∧ m.setBytes? s va.toNat bs = some m' := by
  unfold store
  split
  · next h =>
    cases m.setBytes? s va.toNat bs <;> simp [h]
  · next h => simp [h]

/-- Setting bytes gives out no frame. -/
theorem Sound.setBytes? (h : m.Sound) (hset : m.setBytes? s a bs = some m') : m'.Sound := by
  rw [setBytes?_eq_some hset]
  exact ⟨h.given, h.once⟩

/-- No operation gives a frame out twice. -/
theorem Made.sound (made : m.Made) : m.Sound := by
  induction made with
  | empty => exact ⟨by simp, by simp⟩
  | newSpace _ ih => exact ⟨ih.given, ih.once⟩
  | map _ h ih => exact ih.map h
  | share _ h ih => exact ih.share h
  | store _ h ih => exact ih.setBytes? (store_eq_ok.1 h).2
  | enter _ _ ih => exact ⟨ih.given, ih.once⟩
  | leave _ ih => exact ⟨ih.given, ih.once⟩

/-- Different addresses have different bytes behind them, also those of different address spaces. -/
theorem Sound.physical?_inj (h : m.Sound) {t : SpaceId} {x : Nat} (ha : m.physical? s a = some x)
    (hc : m.physical? t c = some x) : a = c := by
  obtain ⟨p, hp, rfl⟩ := Option.map_eq_some_iff.1 ha
  obtain ⟨q, hq, hx⟩ := Option.map_eq_some_iff.1 hc
  dsimp only [pageSize] at hx
  have hframe : p.frame = q.frame := by omega
  have hpage : a / 4096 = c / 4096 := h.once _ p _ q hp hq hframe
  omega

/-! ## Bytes -/

/-- A byte that is written stands at its own address and at no other one. -/
theorem Sound.byte?_insert (h : m.Sound) {x : Nat} (hx : m.physical? s a = some x) :
    ({ m with bytes := m.bytes.insert x b } : Memory).byte? s c =
      if a = c then some b else m.byte? s c := by
  have hbyte : ({ m with bytes := m.bytes.insert x b } : Memory).byte? s c =
      (m.physical? s c).map fun y => (m.bytes.insert x b).getD y 0 := rfl
  rw [hbyte]
  split
  · next hac =>
    subst hac
    rw [hx, Option.map_some, Std.ExtTreeMap.getD_insert_self]
  · next hac =>
    refine Option.map_congr fun y hy => ?_
    have hne : x ≠ y := fun hxy => hac (h.physical?_inj hx (hxy ▸ hy))
    simp [Std.ExtTreeMap.getD_insert, hne]

/-- A write changes the bytes at its own addresses. -/
theorem Sound.byte?_setBytes? (h : m.Sound) (hset : m.setBytes? s a bs = some m') :
    m'.byte? s c = if a ≤ c ∧ c < a + bs.length then bs[c - a]? else m.byte? s c := by
  induction bs generalizing m a with
  | nil =>
    cases hset
    rw [if_neg (by simp only [List.length_nil]; omega)]
  | cons b bs ih =>
    rw [Memory.setBytes?] at hset
    split at hset
    · next x hx =>
      have h₁ : ({ m with bytes := m.bytes.insert x b } : Memory).Sound := ⟨h.given, h.once⟩
      rw [ih h₁ hset, h.byte?_insert hx, List.length_cons]
      -- the address lies before the write, at its first byte, among the others or behind
      by_cases hc : a < c
      · have hsucc : c - a = c - (a + 1) + 1 := by omega
        rw [hsucc, List.getElem?_cons_succ, if_neg (Nat.ne_of_lt hc)]
        split <;> split <;> first | rfl | omega
      · by_cases hac : a = c
        · subst hac
          rw [if_neg (by omega), if_pos rfl, if_pos (by omega), Nat.sub_self,
            List.getElem?_cons_zero]
        · rw [if_neg (by omega), if_neg hac, if_neg (by omega)]
    · cases hset

/-- The bytes of a list stand one after the other from an address on. -/
def Holds (m : Memory) (s : SpaceId) (a : Nat) (bs : List UInt8) : Prop :=
  ∀ i < bs.length, m.byte? s (a + i) = bs[i]?

/-- Bytes that an address holds are found there. -/
theorem Holds.bytes? (h : m.Holds s a bs) : m.bytes? s a bs.length = some bs := by
  induction bs generalizing a with
  | nil => rfl
  | cons b bs ih =>
    have hb : m.byte? s a = some b := h 0 (by simp)
    have htail : m.Holds s (a + 1) bs := fun i hi => by
      have hsucc : a + 1 + i = a + (i + 1) := by omega
      rw [hsucc, h (i + 1) (by simpa using hi), List.getElem?_cons_succ]
    rw [List.length_cons, Memory.bytes?, hb]
    dsimp only
    rw [ih htail, Option.map_some]

/-- Bytes that stand in user memory that may be read are read. -/
theorem userRead_of_holds (hlimit : va.toNat + bs.length ≤ userLimit)
    (hallows : ∀ i < bs.length, m.Allows s .userRead (va.toNat + i))
    (h : m.Holds s va.toNat bs) : m.userRead s va bs.length = .ok bs := by
  have hcheck : (m.enter s).check s va bs.length .toRead = .ok () :=
    check_eq_ok.2 ⟨hlimit, fun i hi => hallows i hi⟩
  have hholds : (m.enter s).Holds s va.toNat bs := h
  have hsize : va.toNat + bs.length < UInt64.size := by
    have hbound : userLimit < UInt64.size := by decide
    omega
  rw [userRead, hcheck]
  dsimp only
  rw [load, if_pos hsize, hholds.bytes?]
  rfl

/-- A write that is not refused lies in user memory. -/
theorem userWrite_eq_ok (h : m.userWrite s va bs = .ok m') :
    va.toNat + bs.length ≤ userLimit ∧
      ∃ m₁, (m.enter s).store s va bs = .ok m₁ ∧ m' = m₁.leave := by
  unfold userWrite at h
  split at h
  · cases h
  · next hcheck =>
    refine ⟨(check_eq_ok.1 hcheck).1, ?_⟩
    cases hstore : (m.enter s).store s va bs with
    | error e =>
      rw [hstore] at h
      cases h
    | ok m₁ =>
      rw [hstore] at h
      cases h
      exact ⟨m₁, rfl, rfl⟩

/-- A write takes a memory that can come about to another one. -/
theorem Made.userWrite (made : m.Made) (h : m.userWrite s va bs = .ok m') : m'.Made := by
  obtain ⟨-, m₁, hstore, rfl⟩ := userWrite_eq_ok h
  exact ((made.enter s).store hstore).leave

/-- A write leaves the permissions. -/
theorem allows_userWrite (h : m.userWrite s va bs = .ok m') {s' : SpaceId} :
    m'.Allows s' need a ↔ m.Allows s' need a := by
  obtain ⟨-, m₁, hstore, rfl⟩ := userWrite_eq_ok h
  have hpages : m₁.pages = m.pages := by
    rw [setBytes?_eq_some (store_eq_ok.1 hstore).2]
    rfl
  unfold Allows pageAt? Memory.leave
  rw [hpages]

/-- A write changes the bytes at its own addresses. -/
theorem Sound.byte?_userWrite (sound : m.Sound) (h : m.userWrite s va bs = .ok m') :
    m'.byte? s c =
      if va.toNat ≤ c ∧ c < va.toNat + bs.length then bs[c - va.toNat]? else m.byte? s c := by
  obtain ⟨-, m₁, hstore, rfl⟩ := userWrite_eq_ok h
  have henter : (m.enter s).Sound := ⟨sound.given, sound.once⟩
  have hbyte := henter.byte?_setBytes? (c := c) (store_eq_ok.1 hstore).2
  exact hbyte

end SyncKernel.Memory
