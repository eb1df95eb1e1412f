import Chromium.Lib.Memory
import Chromium.Lib.MachineInt
import Chromium.Gpu.Common.CmdFormat

/-!
# What lies in the ring

The client puts commands one behind the other into the first `U` entries of the
ring (`usable_entry_count_`), and goes back to entry `0` with a jump, which it
puts behind the last command that still fits, at the latest at entry `U`.

* `Path ring U g items p`: read from entry `g`, the ring holds `items`, and the
  reader is at entry `p` after them.
* `foot g items`: the entries that are read on this way.
* `Fits U view items p q`: the way does not run into itself, and a command that
  takes the entries from `p` to `q` does not run into it.

`Walk` is the way as the reader finds it, from the contents of the ring alone.
-/

namespace Chromium.Gpu

open Lib

/-- A command as the client may issue it: its header has its size, and it is no jump. -/
structure WellFormed (c : List CommandBufferEntry) : Prop where
  size : CommandHeader.size (c.headD 0) = c.length
  pos : 0 < c.length
  noJump : ∀ id, CommandId.ofNat? (CommandHeader.command (c.headD 0)) = some id → id.isJump = false

/-- What lies in the ring: the commands of the client, and its jumps back to entry `0`. -/
inductive Item
  | command (c : List CommandBufferEntry)
  | jump
  deriving DecidableEq

def commands (items : List Item) : List (List CommandBufferEntry) :=
  items.filterMap fun
    | .command c => some c
    | .jump => none

@[simp] theorem commands_nil : commands [] = [] := rfl

@[simp] theorem commands_append (a b : List Item) : commands (a ++ b) = commands a ++ commands b :=
  List.filterMap_append

/-- Read from `g`, the ring holds `items`, and the reader is at `p` after them. -/
inductive Path (ring : ℤ → CommandBufferEntry) (U : ℤ) : ℤ → List Item → ℤ → Prop
  | nil {g : ℤ} : Path ring U g [] g
  | command {g p : ℤ} {c : List CommandBufferEntry} {items : List Item} :
      WellFormed c → 0 ≤ g → g + c.length ≤ U → load ring g c.length = c →
      Path ring U (g + c.length) items p → Path ring U g (.command c :: items) p
  | jump {g p : ℤ} {items : List Item} : 1 ≤ g → g ≤ U → load ring g 2 = Jump.set 0 →
      Path ring U 0 items p → Path ring U g (.jump :: items) p

def foot : ℤ → List Item → ℤ → Prop
  | _, [], _ => False
  | g, .command c :: items, i => (g ≤ i ∧ i < g + c.length) ∨ foot (g + c.length) items i
  | g, .jump :: items, i => (g ≤ i ∧ i < g + 2) ∨ foot 0 items i

namespace Path

variable {ring ring' : ℤ → CommandBufferEntry} {U g m p : ℤ} {a b items : List Item}

theorem append (h : Path ring U g a m) (h' : Path ring U m b p) : Path ring U g (a ++ b) p := by
  induction h with
  | nil => exact h'
  | command hw h0 hle hl _ ih => exact .command hw h0 hle hl (ih h')
  | jump h1 hle hl _ ih => exact .jump h1 hle hl (ih h')

theorem split (h : Path ring U g (a ++ b) p) : ∃ m, Path ring U g a m ∧ Path ring U m b p := by
  induction a generalizing g with
  | nil => exact ⟨g, .nil, h⟩
  | cons x a ih =>
    cases h with
    | command hw h0 hle hl h =>
      obtain ⟨m, ha, hb⟩ := ih h
      exact ⟨m, .command hw h0 hle hl ha, hb⟩
    | jump h1 hle hl h =>
      obtain ⟨m, ha, hb⟩ := ih h
      exact ⟨m, .jump h1 hle hl ha, hb⟩

theorem unique {p' : ℤ} (h : Path ring U g items p) (h' : Path ring' U g items p') : p = p' := by
  induction h with
  | nil => cases h'; rfl
  | command _ _ _ _ _ ih => cases h' with | command _ _ _ _ h' => exact ih h'
  | jump _ _ _ _ ih => cases h' with | jump _ _ _ h' => exact ih h'

/-- **Without a jump the way goes up**, and it stands still only without a command. -/
theorem le (h : Path ring U g items p) (hj : Item.jump ∉ items) :
    g ≤ p ∧ (items ≠ [] → g < p ∧ 0 ≤ g ∧ p ≤ U) := by
  induction h with
  | nil => exact ⟨le_rfl, fun h => absurd rfl h⟩
  | @command g p c items hw h0 hle _ _ ih =>
    obtain ⟨hle', hlt⟩ := ih (fun h => hj (List.mem_cons_of_mem _ h))
    have hpos := hw.pos
    refine ⟨by omega, fun _ => ⟨by omega, h0, ?_⟩⟩
    by_cases hn : items = []
    · subst hn
      cases ‹Path ring U _ [] _›
      exact hle
    · exact (hlt hn).2.2
  | jump => exact absurd List.mem_cons_self hj

theorem end_mem (h : Path ring U g items p) (h0 : 0 ≤ g) (h1 : g = 0 ∨ g ≤ U) :
    0 ≤ p ∧ (p = 0 ∨ p ≤ U) := by
  induction h with
  | nil => exact ⟨h0, h1⟩
  | command _ _ hle _ _ ih => exact ih (by omega) (.inr hle)
  | jump _ _ _ _ ih => exact ih le_rfl (.inl rfl)

theorem foot_mem (h : Path ring U g items p) (hj : Item.jump ∉ items) {i : ℤ}
    (hi : foot g items i) : g ≤ i ∧ i < p := by
  induction h with
  | nil => exact hi.elim
  | command hw _ _ _ h ih =>
    have hj' : Item.jump ∉ _ := fun hm => hj (List.mem_cons_of_mem _ hm)
    have hle := (h.le hj').1
    rcases hi with hi | hi
    · omega
    · have := ih hj' hi
      omega
  | jump => exact absurd List.mem_cons_self hj

theorem foot_append (h : Path ring U g a m) {i : ℤ} : foot g (a ++ b) i ↔ foot g a i ∨ foot m b i := by
  induction h with
  | nil => exact ⟨.inr, fun h => h.resolve_left id⟩
  | command _ _ _ _ _ ih | jump _ _ _ _ ih => simp only [List.cons_append, foot, ih, or_assoc]

theorem congr (h : Path ring U g items p) (hr : ∀ i, foot g items i → ring' i = ring i) :
    Path ring' U g items p := by
  induction h with
  | nil => exact .nil
  | command hw h0 hle hl _ ih =>
    refine .command hw h0 hle ?_ (ih fun i hi => hr i (.inr hi))
    rw [load_congr fun i hi hi' => hr i (.inl ⟨hi, hi'⟩)]
    exact hl
  | jump h1 hle hl _ ih =>
    refine .jump h1 hle ?_ (ih fun i hi => hr i (.inr hi))
    rw [load_congr fun i hi hi' => hr i (.inl ⟨hi, hi'⟩)]
    exact hl

end Path

/-- The way `items` from `view` to `p` does not run into itself, and neither into the
entries from `p` to `q`.  Either it has no jump, or it has one and stays
below `view` behind it. -/
structure Fits (U view : ℤ) (items : List Item) (p q : ℤ) : Prop where
  nonneg : 0 ≤ p
  bound : p = 0 ∨ p < U
  le : p ≤ q
  room : (Item.jump ∉ items ∧ (p < q → q ≤ U ∧ (q = U → 1 ≤ view))) ∨
    ∃ as bs, items = as ++ .jump :: bs ∧ Item.jump ∉ as ∧ Item.jump ∉ bs ∧ q < view

namespace Fits

variable {ring : ℤ → CommandBufferEntry} {U view g m p q i : ℤ} {a b items : List Item}

theorem halves {as bs : List Item} (h : Path ring U view (as ++ .jump :: bs) p) :
    ∃ j, Path ring U view as j ∧ 1 ≤ j ∧ j ≤ U ∧ Path ring U 0 bs p := by
  obtain ⟨j, ha, hb⟩ := h.split
  cases hb with
  | jump h1 hle _ hb => exact ⟨j, ha, h1, hle, hb⟩

/-- **The entries from `p` to `q` are not on the way.** -/
theorem not_foot (h : Fits U view items p q) (hp : Path ring U view items p)
    (hi : foot view items i) : ¬ (p ≤ i ∧ i < q) := by
  rcases h.room with ⟨hj, _⟩ | ⟨as, bs, rfl, ha, hb, hlt⟩
  · have := hp.foot_mem hj hi
    omega
  · obtain ⟨j, hpa, _, _, hpb⟩ := halves hp
    have hle := (hpa.le ha).1
    rcases hpa.foot_append.1 hi with hi | hi | hi
    · have := hpa.foot_mem ha hi
      omega
    · omega
    · have := hpb.foot_mem hb hi
      omega

theorem foot_lt (h : Fits U view items p U) (hlt : p < U) (hp : Path ring U view items p)
    (hi : foot view items i) : i < U := by
  rcases h.room with ⟨hj, _⟩ | ⟨as, bs, rfl, ha, hb, hv⟩
  · have := hp.foot_mem hj hi
    omega
  · obtain ⟨j, hpa, _, hju, _⟩ := halves hp
    have := (hpa.le ha).1
    omega

/-- **The reader goes on**: behind a part of the way the rest still fits. -/
theorem advance (h : Fits U view (a ++ b) p q) (ha : Path ring U view a g)
    (hb : Path ring U g b p) : Fits U g b p q where
  nonneg := h.nonneg
  bound := h.bound
  le := h.le
  room := by
    rcases h.room with ⟨hj, hq⟩ | ⟨as, bs, he, has, hbs, hlt⟩
    · have hle := (ha.le fun hm => hj (List.mem_append_left b hm)).1
      refine .inl ⟨fun hm => hj (List.mem_append_right a hm), fun hpq => ?_⟩
      have := hq hpq
      exact ⟨this.1, fun hu => by have := this.2 hu; omega⟩
    · rcases List.append_eq_append_iff.1 he with ⟨c, rfl, rfl⟩ | ⟨c, rfl, hc⟩
      · -- the jump is still ahead
        have hle := (ha.le fun hm => has (List.mem_append_left c hm)).1
        exact .inr ⟨c, bs, rfl, fun hm => has (List.mem_append_right a hm), hbs, by omega⟩
      · cases c with
        | nil =>
          obtain rfl : b = .jump :: bs := hc.symm
          rw [List.append_nil] at ha
          have hle := (ha.le has).1
          exact .inr ⟨[], bs, rfl, List.not_mem_nil, hbs, by omega⟩
        | cons x c =>
          -- the jump was passed
          cases hc
          obtain ⟨j, hpa, _, hju, _⟩ := halves ha
          have hle := (hpa.le has).1
          exact .inl ⟨fun hm => hbs (List.mem_append_right c hm), fun _ => ⟨by omega, by omega⟩⟩

/-- **The ring tells a full ring from an empty one**: a part of the way that comes
back to where it started is empty. -/
theorem eq_nil (h : Fits U g (a ++ b) p q) (ha : Path ring U g a m) (hb : Path ring U m b p)
    (hgm : g = m) : a = [] := by
  by_contra hne
  by_cases hja : Item.jump ∉ a
  · have := ((ha.le hja).2 hne).1
    omega
  · rw [not_not] at hja
    rcases h.room with ⟨hj, _⟩ | ⟨as, bs, he, has, hbs, hlt⟩
    · exact hj (List.mem_append_left b hja)
    · rcases List.append_eq_append_iff.1 he with ⟨c, rfl, rfl⟩ | ⟨c, rfl, hc⟩
      · exact has (List.mem_append_left c hja)
      · cases c with
        | nil =>
          rw [List.append_nil] at hja
          exact has hja
        | cons x c =>
          cases hc
          have := (hb.le fun hm => hbs (List.mem_append_right c hm)).1
          have := h.le
          omega

/-! #### The ways on -/

/-- **The available entries are enough for the command**, so it fits. -/
theorem reserve {n : ℤ} (h : Fits U view items p p) (hp : Path ring U view items p)
    (hv0 : 0 ≤ view) (hvU : view ≤ U) (hn : 1 ≤ n) (hU : p + n ≤ U)
    (hav : n ≤ (view - p - 1 + U) % U) : Fits U view items p (p + n) where
  nonneg := h.nonneg
  bound := h.bound
  le := by omega
  room := by
    have h0 := h.nonneg
    rcases h.room with ⟨hj, _⟩ | ⟨as, bs, he, ha, hb, hlt⟩
    · have hle := (hp.le hj).1
      rw [Int.emod_eq_of_lt (by omega) (by omega)] at hav
      exact .inl ⟨hj, fun _ => ⟨hU, fun _ => by omega⟩⟩
    · have hmod : (view - p - 1 + U) % U = view - p - 1 := by
        rw [Int.add_emod_right]
        exact Int.emod_eq_of_lt (by omega) (by omega)
      rw [hmod] at hav
      exact .inr ⟨as, bs, he, ha, hb, by omega⟩

/-- The reader is not ahead, so the jump back to entry `0` fits. -/
theorem wrap (h : Fits U view items p p) (hv0 : 0 < view) (hv : view ≤ p) :
    Item.jump ∉ items ∧ Fits U view (items ++ [.jump]) 0 0 := by
  have hj : Item.jump ∉ items := by
    rcases h.room with ⟨hj, _⟩ | ⟨_, _, _, _, _, hlt⟩
    · exact hj
    · omega
  exact ⟨hj, le_rfl, .inl rfl, le_rfl, .inr ⟨items, [], rfl, hj, List.not_mem_nil, hv0⟩⟩

theorem command (c : List CommandBufferEntry) (h : Fits U view items p q) (hq : q < U) :
    Fits U view (items ++ [.command c]) q q where
  nonneg := h.nonneg.trans h.le
  bound := .inr hq
  le := le_rfl
  room := by
    rcases h.room with ⟨hj, _⟩ | ⟨as, bs, rfl, ha, hb, hlt⟩
    · exact .inl ⟨by simpa using hj, fun h => absurd h (lt_irrefl _)⟩
    · exact .inr ⟨as, bs ++ [.command c], by simp, ha, by simpa using hb, hlt⟩

theorem commandJump (c : List CommandBufferEntry) (h : Fits U view items p U) (hlt : p < U)
    (hp : Path ring U view items p) : Fits U view (items ++ [.command c, .jump]) 0 0 where
  nonneg := le_rfl
  bound := .inl rfl
  le := le_rfl
  room := by
    rcases h.room with ⟨hj, hq⟩ | ⟨as, bs, rfl, ha, hb, hv⟩
    · exact .inr ⟨items ++ [.command c], [], by simp, by simpa using hj, List.not_mem_nil, (hq hlt).2 rfl⟩
    · obtain ⟨j, hpa, _, hju, _⟩ := halves hp
      have := (hpa.le ha).1
      omega

end Fits

/-! ### The way as the reader finds it -/

/-- The way of the reader from an entry to `put`, through a ring of `E` entries.
`regions` are the entries of each command on it, the jumps included. -/
inductive Walk (ring : ℤ → CommandBufferEntry) (E put : ℤ) : ℤ → List (ℤ × ℤ) → Prop
  | done : Walk ring E put put []
  | command {g : ℤ} {regions : List (ℤ × ℤ)} : g ≠ put →
      CommandHeader.command (ring g) ≠ CommandId.kJump.toNat →
      0 < CommandHeader.size (ring g) → g + CommandHeader.size (ring g) ≤ E →
      Walk ring E put ((g + CommandHeader.size (ring g)) % E) regions →
      Walk ring E put g ((g, g + CommandHeader.size (ring g)) :: regions)
  | jump {g : ℤ} {regions : List (ℤ × ℤ)} : g ≠ put →
      CommandHeader.command (ring g) = CommandId.kJump.toNat →
      CommandHeader.size (ring g) = 2 → g + 2 ≤ E →
      Walk ring E put (int32OfUInt32 (ring (g + 1))) regions →
      Walk ring E put g ((g, g + 2) :: regions)

/-- The entry `i` lies in one of the regions. -/
def InRegions (regions : List (ℤ × ℤ)) (i : ℤ) : Prop := ∃ r ∈ regions, r.1 ≤ i ∧ i < r.2

/-- The regions of the items that lie in the ring from `g` on. -/
def regions : ℤ → List Item → List (ℤ × ℤ)
  | _, [] => []
  | g, .command c :: items => (g, g + c.length) :: regions (g + c.length) items
  | g, .jump :: items => (g, g + 2) :: regions 0 items

theorem inRegions_regions {g i : ℤ} {items : List Item} :
    InRegions (regions g items) i ↔ foot g items i := by
  induction items generalizing g with
  | nil => simp [regions, foot, InRegions]
  | cons item items ih =>
    cases item with
    | command c | jump => rw [foot, ← ih]; simp [regions, InRegions]

section

variable {ring : ℤ → CommandBufferEntry} {U g m p q : ℤ}

theorem load_header {c : List CommandBufferEntry} (hw : WellFormed c)
    (hl : load ring g c.length = c) : ring g = c.headD 0 := by
  have h0 := getElem?_load ring g hw.pos
  rw [hl] at h0
  rw [List.headD_eq_head?_getD, List.head?_eq_getElem?, h0, Option.getD_some, Nat.cast_zero, add_zero]

theorem load_jump (hl : load ring g 2 = Jump.set 0) :
    ring g = CommandHeader.init CommandId.kJump.toNat 2 ∧ ring (g + 1) = 0 := by
  have h0 := getElem?_load ring g (show 0 < 2 by decide)
  have h1 := getElem?_load ring g (show 1 < 2 by decide)
  rw [hl] at h0 h1
  refine ⟨?_, ?_⟩
  · simpa [Jump.set] using h0.symm
  · simpa [Jump.set] using h1.symm

theorem command_jumpHeader :
    CommandHeader.command (CommandHeader.init CommandId.kJump.toNat 2) = CommandId.kJump.toNat :=
  CommandHeader.command_init (by decide)

theorem size_jumpHeader : CommandHeader.size (CommandHeader.init CommandId.kJump.toNat 2) = 2 :=
  CommandHeader.size_init (by decide)

theorem WellFormed.command_ne {c : List CommandBufferEntry} (hw : WellFormed c) :
    CommandHeader.command (c.headD 0) ≠ CommandId.kJump.toNat := by
  intro h
  have := hw.noJump .kJump (by rw [h]; exact CommandId.ofNat?_toNat _)
  cases this

theorem walk_of_path {E : ℤ} (hE : U + 2 ≤ E) {a b : List Item} (ha : Path ring U g a m)
    (hb : Path ring U m b p) (hf : Fits U g (a ++ b) p q) : Walk ring E m g (regions g a) := by
  induction ha with
  | nil => exact .done
  | @command g m c items hw h0 hle hl h ih =>
    have hpath : Path ring U g [.command c] (g + c.length) := .command hw h0 hle hl .nil
    have hne : g ≠ m := fun hgm =>
      List.cons_ne_nil _ _ (hf.eq_nil (.command hw h0 hle hl h) hb hgm)
    have hwalk := ih hb (hf.advance (a := [.command c]) hpath (h.append hb))
    have hhead := load_header hw hl
    have hsize : CommandHeader.size (ring g) = c.length := by rw [hhead, hw.size]
    have hpos := hw.pos
    rw [regions, ← hsize]
    refine .command hne (by rw [hhead]; exact hw.command_ne) (by omega) (by omega) ?_
    rw [Int.emod_eq_of_lt (by omega) (by omega), hsize]
    exact hwalk
  | @jump g m items h1 hle hl h ih =>
    have hpath : Path ring U g [.jump] 0 := .jump h1 hle hl .nil
    have hne : g ≠ m := fun hgm => List.cons_ne_nil _ _ (hf.eq_nil (.jump h1 hle hl h) hb hgm)
    have hwalk := ih hb (hf.advance (a := [.jump]) hpath (h.append hb))
    obtain ⟨hr0, hr1⟩ := load_jump hl
    refine .jump hne (by rw [hr0, command_jumpHeader]) (by rw [hr0, size_jumpHeader])
      (by omega) ?_
    rw [hr1]
    exact hwalk

end

end Chromium.Gpu
