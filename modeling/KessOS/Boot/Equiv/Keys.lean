import KessOS.Boot.Menu
import KessOS.Trace.Latch

/-!
# What the keys do in the boot menu

The loop polls the keyboard and does not look whether a key was there, so it sees each key again
and again, and what `Key` happens to hold at first.  Seeing a key again does nothing
(`Selection.press_press`), so the loop does what `Selection` does on the keys that are pressed,
unless the first poll finds none and `Key` holds a key that means something
(`run_matches_iff`).
-/

namespace KessOS

namespace Bootloader

open Trace

/-! ### What the menu should do -/

/-- The option that is selected, or what was chosen. -/
inductive Selection
  | boot
  | reboot
  | booted (legacyBoot : BitVec 8)
  | reset
deriving DecidableEq, Repr

namespace Selection

/-- A key is pressed: 1 is up, 2 is down, 3 is right and 4 is left. -/
def press (scanCode : BitVec 16) : Selection → Selection
  | boot =>
    if scanCode = 2 then reboot
    else if scanCode = 3 then booted 0
    else if scanCode = 4 then booted 1
    else boot
  | reboot =>
    if scanCode = 1 then boot
    else if scanCode = 3 then reset
    else reboot
  | booted legacyBoot => booted legacyBoot
  | reset => reset

/-- The selection after some polls, of which those that find no key do nothing. -/
def run (reads : List (Option (BitVec 16))) : Selection := replay (edge press) reads boot

/-- The menu that is on the screen. -/
def screen : Selection → Menu
  | boot => .boot
  | reboot => .reboot
  | booted _ => .boot
  | reset => .reboot

end Selection

def Selection.outcome : Selection → MenuOutcome
  | boot => .waiting
  | reboot => .waiting
  | booted legacyBoot => .booted legacyBoot
  | reset => .reset

/-- The option with the white bar is the one that `menuEntry` says. -/
def Menu.Highlights (menu : Menu) (menuEntry : BitVec 8) : Prop :=
  (menuEntry = 1 ∧ menu.bootBar = 0xFFFFFF ∧ menu.rebootBar = 0x808080) ∨
    (menuEntry = 0 ∧ menu.bootBar = 0x808080 ∧ menu.rebootBar = 0xFFFFFF)

/-- The loop has come to what the selection says, with the menu that belongs to it. -/
structure Matches (s : MenuLoop) (c : Selection) : Prop where
  outcome : s.outcome = c.outcome
  screen : s.screen = c.screen
  highlights : s.screen.Highlights s.menuEntry

/-! ### What the loop does -/

/-- The locals of the loop that stand for the selection. -/
def Selection.locals : Selection → MenuLoop
  | boot => .start
  | reboot => { MenuLoop.start with menuEntry := 0, screen := .reboot }
  | booted legacyBoot => { MenuLoop.start with loop := 0, legacyBoot := legacyBoot }
  | reset => { MenuLoop.start with menuEntry := 0, screen := .reboot, reset := true }

theorem Selection.matches_locals (c : Selection) : Matches c.locals c := by
  cases c with
  | boot => exact ⟨rfl, rfl, Or.inl ⟨rfl, rfl, rfl⟩⟩
  | reboot => exact ⟨rfl, rfl, Or.inr ⟨rfl, rfl, rfl⟩⟩
  | booted legacyBoot => exact ⟨rfl, rfl, Or.inl ⟨rfl, rfl, rfl⟩⟩
  | reset => exact ⟨rfl, rfl, Or.inr ⟨rfl, rfl, rfl⟩⟩

/-- The outcome and the screen tell the selection. -/
theorem Selection.matches_locals_iff {c c' : Selection} : Matches c.locals c' ↔ c = c' := by
  constructor
  · intro h
    have houtcome := c.matches_locals.outcome.symm.trans h.outcome
    have hscreen := c.matches_locals.screen.symm.trans h.screen
    cases c with
    | boot =>
      cases c' with
      | boot => rfl
      | reboot => exact absurd hscreen (by decide)
      | booted legacyBoot => cases houtcome
      | reset => cases houtcome
    | reboot =>
      cases c' with
      | boot => exact absurd hscreen (by decide)
      | reboot => rfl
      | booted legacyBoot => cases houtcome
      | reset => cases houtcome
    | booted legacyBoot =>
      cases c' with
      | booted legacyBoot' =>
        cases houtcome
        rfl
      | boot => cases houtcome
      | reboot => cases houtcome
      | reset => cases houtcome
    | reset =>
      cases c' with
      | reset => rfl
      | boot => cases houtcome
      | reboot => cases houtcome
      | booted legacyBoot => cases houtcome
  · rintro rfl
    exact c.matches_locals

/-- A key that is pressed again does nothing. -/
theorem Selection.press_press (scanCode : BitVec 16) (c : Selection) :
    (c.press scanCode).press scanCode = c.press scanCode := by
  cases c with
  | boot =>
    by_cases h2 : scanCode = 2
    · subst h2
      rfl
    · by_cases h34 : scanCode = 3 ∨ scanCode = 4
      · rcases h34 with rfl | rfl
        · rfl
        · rfl
      · have hsame : boot.press scanCode = boot := by simp_all [press]
        rw [hsame, hsame]
  | reboot =>
    by_cases h13 : scanCode = 1 ∨ scanCode = 3
    · rcases h13 with rfl | rfl
      · rfl
      · rfl
    · have hsame : reboot.press scanCode = reboot := by simp_all [press]
      rw [hsame, hsame]
  | booted legacyBoot => rfl
  | reset => rfl

/-- The body of the loop does what the key should do. -/
theorem react_locals (scanCode : BitVec 16) {c : Selection} (hc : c.outcome = .waiting) :
    c.locals.react scanCode = (c.press scanCode).locals := by
  cases c with
  | boot =>
    rw [MenuLoop.react, Selection.press]
    split_ifs <;> simp_all [Selection.locals, MenuLoop.start]
  | reboot =>
    rw [MenuLoop.react, Selection.press]
    split_ifs <;> simp_all [Selection.locals, MenuLoop.start]
  | booted legacyBoot => cases hc
  | reset => cases hc

/-- The loop goes on as long as nothing was chosen. -/
theorem ended_iff (c : Selection) :
    (c.locals.loop = 0 ∨ c.locals.reset = true) ↔ c.outcome ≠ .waiting := by
  cases c with
  | boot => decide
  | reboot => decide
  | booted legacyBoot => exact iff_of_true (Or.inl rfl) (by simp [Selection.outcome])
  | reset => decide

theorem press_of_ended {c : Selection} (hc : c.outcome ≠ .waiting) (scanCode : BitVec 16) :
    c.press scanCode = c := by
  cases c with
  | boot => exact absurd rfl hc
  | reboot => exact absurd rfl hc
  | booted legacyBoot => rfl
  | reset => rfl

/-- The loop stands for a selection, and has seen the same key as long as it goes on. -/
def Stands (s : MenuLoop × BitVec 16) (t : Selection × BitVec 16) : Prop :=
  s.1 = t.1.locals ∧ (t.1.outcome = .waiting → s.2 = t.2)

/-- One turn of the loop is a poll of a keyboard that keeps its last key. -/
theorem Stands.poll {s : MenuLoop × BitVec 16} {t : Selection × BitVec 16} (h : Stands s t)
    (read : Option (BitVec 16)) :
    Stands (MenuLoop.poll read s) (latch Selection.press read t) := by
  obtain ⟨hlocals, hkey⟩ := h
  unfold MenuLoop.poll latch
  by_cases hc : t.1.outcome = .waiting
  · have hgoes : ¬ (s.1.loop = 0 ∨ s.1.reset = true) := by
      rw [hlocals, ended_iff, hc]
      exact fun h => h rfl
    rw [if_neg hgoes, hlocals, hkey hc]
    exact ⟨react_locals _ hc, fun _ => rfl⟩
  · have hended : s.1.loop = 0 ∨ s.1.reset = true := by
      rw [hlocals, ended_iff]
      exact hc
    rw [if_pos hended]
    refine ⟨?_, ?_⟩
    · show s.1 = (t.1.press _).locals
      rw [press_of_ended hc, hlocals]
    · show (t.1.press _).outcome = .waiting → _
      rw [press_of_ended hc]
      exact fun hwaiting => absurd hwaiting hc

theorem run_eq_locals (scanCode : BitVec 16) (reads : List (Option (BitVec 16))) :
    MenuLoop.run scanCode reads =
      (replay (latch Selection.press) reads (.boot, scanCode)).1.locals := by
  have hall : ∀ reads s t, Stands s t →
      Stands (reads.foldl (fun s read => MenuLoop.poll read s) s)
        (replay (latch Selection.press) reads t) := by
    intro reads
    induction reads with
    | nil => exact fun s t h => h
    | cons read reads ih => exact fun s t h => ih _ _ (h.poll read)
  exact (hall reads _ (.boot, scanCode) ⟨rfl, fun _ => rfl⟩).1

/-- At the start only down, right and left do something. -/
theorem spent_start_iff (scanCode : BitVec 16) :
    Spent Selection.press (.boot, scanCode) ↔ scanCode ≠ 2 ∧ scanCode ≠ 3 ∧ scanCode ≠ 4 := by
  show Selection.boot.press scanCode = .boot ↔ _
  rw [Selection.press]
  split_ifs <;> simp_all

/-- **What the keys do.**  After every poll the loop has come to what the keys pressed so far should
lead to, and shows it, if there was no poll, if the first one found a key, or if what `Key` held
before is none of down, right and left. -/
theorem run_matches_iff (scanCode : BitVec 16) (reads : List (Option (BitVec 16))) :
    (∀ pre, pre <+: reads → Matches (MenuLoop.run scanCode pre) (Selection.run pre)) ↔
      (reads.head? = some none → scanCode ≠ 2 ∧ scanCode ≠ 3 ∧ scanCode ≠ 4) := by
  rw [← spent_start_iff, ← latch_eq_edge_iff Selection.press_press]
  simp only [run_eq_locals, Selection.matches_locals_iff]
  rfl

/-- `Key` holds a 3, and nobody presses a key: the machine boots. -/
theorem not_run_matches_stale :
    ¬ ∀ pre, pre <+: [none] → Matches (MenuLoop.run 3 pre) (Selection.run pre) := by
  intro h
  have houtcome := (h [none] (List.prefix_refl _)).outcome
  exact absurd houtcome (by decide)

end Bootloader

end KessOS
