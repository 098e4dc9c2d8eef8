import ArchaOS.Construction.GraphicsMode
import ArchaOS.Library.Outcome

namespace ArchaOS.GraphicsMode

open Library KernelImage

/-- A mode that is shown with a format that the kernel accepts. -/
structure Shows (gop : Gop) (mode : Nat) (info : ModeInfo) : Prop where
  inside : mode < gop.maxMode
  queried : gop.queryMode mode = some info
  accepted : kernelAccepts info.pixelFormat

/-- A usable mode with a certain resolution. -/
def Fits (gop : Gop) (mode horizontal vertical : Nat) : Prop :=
  ∃ info, Shows gop mode info ∧ info.horizontalResolution = horizontal ∧
    info.verticalResolution = vertical

/-- The loop stops at a mode with the resolution of the monitor or with 1920x1080. -/
def Stops (monitor : Option Monitor) (info : ModeInfo) : Prop :=
  monitor = some ⟨info.horizontalResolution, info.verticalResolution⟩ ∨
    (info.horizontalResolution = 1920 ∧ info.verticalResolution = 1080)

/-- The two formats that the loop lets pass are those that the kernel accepts. -/
theorem kernelAccepts_iff (pixelFormat : Nat) :
    kernelAccepts pixelFormat ↔
      ¬ (pixelFormat ≠ pixelRedGreenBlue ∧ pixelFormat ≠ pixelBlueGreenRed) := by
  unfold kernelAccepts pixelRedGreenBlue pixelBlueGreenRed
  omega

/-- What is known after the modes below `i`: none of them stopped the loop, and the choice is usable
if there is one. -/
structure Scanned (gop : Gop) (monitor : Option Monitor) (i : Nat) (choice : Choice) : Prop where
  passed : ∀ mode < i, ∀ info, Shows gop mode info → ¬ Stops monitor info
  found : choice.foundMode = true → ∃ info, Shows gop choice.choosenMode info
  lost : choice.foundMode = false → ∀ mode < i, ∀ info, ¬ Shows gop mode info

/-- The loop stopped at the first mode that stops it. -/
structure Stopped (gop : Gop) (monitor : Option Monitor) (choice : Choice) (info : ModeInfo) : Prop where
  found : choice.foundMode = true
  shown : Shows gop choice.choosenMode info
  stops : Stops monitor info
  passed : ∀ mode < choice.choosenMode, ∀ info, Shows gop mode info → ¬ Stops monitor info

variable {gop : Gop} {monitor : Option Monitor}

/-- A mode that is not usable changes nothing. -/
theorem Scanned.skip {i : Nat} {choice : Choice} (scanned : Scanned gop monitor i choice)
    (unusable : ∀ info, ¬ Shows gop i info) : Scanned gop monitor (i + 1) choice := by
  have last {mode : Nat} (below : mode < i + 1) {info : ModeInfo} (shown : Shows gop mode info) :
      mode < i := by
    by_contra above
    obtain rfl : mode = i := by omega
    exact unusable info shown
  constructor
  · intro mode below info shown
    exact scanned.passed mode (last below shown) info shown
  · exact scanned.found
  · intro lost mode below info shown
    exact scanned.lost lost mode (last below shown) info shown

/-- A usable mode that does not stop the loop is the choice if there was none. -/
theorem Scanned.keep {i : Nat} {choice : Choice} {info : ModeInfo}
    (scanned : Scanned gop monitor i choice) (shown : Shows gop i info)
    (goes : ¬ Stops monitor info) :
    Scanned gop monitor (i + 1) (if !choice.foundMode then ⟨i, true⟩ else choice) := by
  constructor
  · intro mode below other otherShown
    by_cases same : mode = i
    · cases same
      have equal := otherShown.queried.symm.trans shown.queried
      cases equal
      exact goes
    · exact scanned.passed mode (by omega) other otherShown
  · intro _
    cases found : choice.foundMode
    · exact ⟨info, shown⟩
    · exact scanned.found found
  · intro impossible
    cases found : choice.foundMode <;> simp [found] at impossible

/-- The loop stops at a mode or has scanned all of them. -/
theorem pickLoop_result (remaining i : Nat) {choice : Choice} (whole : i + remaining = gop.maxMode)
    (scanned : Scanned gop monitor i choice) :
    (∃ info, Stopped gop monitor (pickLoop gop monitor remaining i choice) info) ∨
      Scanned gop monitor gop.maxMode (pickLoop gop monitor remaining i choice) := by
  induction remaining generalizing i choice with
  | zero =>
      rw [Nat.add_zero] at whole
      exact .inr (whole ▸ scanned)
  | succ remaining ih =>
      have next : i + 1 + remaining = gop.maxMode := by omega
      cases queried : gop.queryMode i with
      | none =>
          have unusable (info : ModeInfo) (shown : Shows gop i info) : False := by
            rw [shown.queried] at queried
            cases queried
          simp only [pickLoop, queried]
          exact ih (i + 1) next (scanned.skip unusable)
      | some info =>
          by_cases refused : info.pixelFormat ≠ pixelRedGreenBlue ∧ info.pixelFormat ≠ pixelBlueGreenRed
          · have unusable (other : ModeInfo) (shown : Shows gop i other) : False := by
              have same := shown.queried.symm.trans queried
              cases same
              exact (kernelAccepts_iff _).mp shown.accepted refused
            simp only [pickLoop, queried, if_pos refused]
            exact ih (i + 1) next (scanned.skip unusable)
          · have shown : Shows gop i info := ⟨by omega, queried, (kernelAccepts_iff _).mpr refused⟩
            have found : (if !choice.foundMode then ⟨i, true⟩ else choice : Choice).foundMode = true := by
              cases found : choice.foundMode <;> simp [found]
            simp only [pickLoop, queried, if_neg refused]
            by_cases exactly : monitor = some ⟨info.horizontalResolution, info.verticalResolution⟩
            · rw [if_pos exactly]
              exact .inl ⟨info, found, shown, .inl exactly, scanned.passed⟩
            rw [if_neg exactly]
            by_cases classic : preferClassic ∧ info.horizontalResolution = 1920 ∧
                info.verticalResolution = 1080
            · rw [if_pos classic]
              exact .inl ⟨info, found, shown, .inr classic.2, scanned.passed⟩
            · rw [if_neg classic]
              have goes : ¬ Stops monitor info := by
                rintro (same | classical)
                · exact exactly same
                · exact classic ⟨rfl, classical⟩
              exact ih (i + 1) next (scanned.keep shown goes)

/-- The loop stops at the first mode that stops it, or it looks at every mode. -/
theorem pickLoop_whole (gop : Gop) (monitor : Option Monitor) :
    (∃ info, Stopped gop monitor (pickLoop gop monitor gop.maxMode 0 ⟨0, false⟩) info) ∨
      Scanned gop monitor gop.maxMode (pickLoop gop monitor gop.maxMode 0 ⟨0, false⟩) := by
  have start : Scanned gop monitor 0 ⟨0, false⟩ :=
    { passed := fun mode below => absurd below (Nat.not_lt_zero mode)
      found := fun impossible => by cases impossible
      lost := fun _ mode below => absurd below (Nat.not_lt_zero mode) }
  exact pickLoop_result gop.maxMode 0 (Nat.zero_add _) start

/-- A usable mode makes the loop choose a usable mode, and only then is there a choice. -/
theorem pickLoop_found (gop : Gop) (monitor : Option Monitor) :
    (pickLoop gop monitor gop.maxMode 0 ⟨0, false⟩).foundMode = true ↔ ∃ mode info, Shows gop mode info := by
  rcases pickLoop_whole gop monitor with ⟨info, stopped⟩ | scanned
  · exact iff_of_true stopped.found ⟨_, info, stopped.shown⟩
  · constructor
    · exact fun found => ⟨_, scanned.found found⟩
    · rintro ⟨mode, info, shown⟩
      by_contra lost
      exact scanned.lost (Bool.eq_false_iff.mpr lost) mode shown.inside info shown

/-- The information of a mode that can be shown is found. -/
theorem Shows.infoOf {mode : Nat} {info : ModeInfo} (shown : Shows gop mode info) :
    gop.infoOf mode = some info := by
  rw [Gop.infoOf]
  split
  · rename_i active
    rw [gop.agrees info (active ▸ shown.queried)]
  · exact shown.queried

/-- The chosen mode has a format that the kernel accepts, and the resolution of the monitor if a
usable mode has it. -/
structure Honours (gop : Gop) (monitor : Option Monitor) (chosen : Nat) : Prop where
  accepted : ∃ info, gop.infoOf chosen = some info ∧ kernelAccepts info.pixelFormat
  exactly : ∀ wanted, monitor = some wanted →
    (∃ mode, Fits gop mode wanted.hActive wanted.vActive) →
    ∃ info, gop.infoOf chosen = some info ∧ info.horizontalResolution = wanted.hActive ∧
      info.verticalResolution = wanted.vActive

/-- Without a monitor the active mode is usable, and before every usable 1920x1080 mode there is a
usable mode with the resolution of the monitor if there is one at all. -/
def Favourable (gop : Gop) : Option Monitor → Prop
  | none => (∃ mode info, Shows gop mode info) → kernelAccepts gop.info.pixelFormat
  | some wanted =>
      (∃ mode, Fits gop mode wanted.hActive wanted.vActive) →
        ∀ classic, Fits gop classic 1920 1080 →
          ∃ mode ≤ classic, Fits gop mode wanted.hActive wanted.vActive

/-- Without a monitor the active mode stays. -/
theorem gopPick_skipped (gop : Gop) :
    (∀ chosen, gopPick gop none = .ok chosen → Honours gop none chosen) ↔ Favourable gop none := by
  have active : gop.infoOf gop.mode = some gop.info := if_pos rfl
  constructor
  · intro honours usable
    have found := (pickLoop_found gop none).mpr usable
    have picked : gopPick gop none = .ok gop.mode := by
      simp only [gopPick, found, Bool.not_true, Bool.false_eq_true, if_false, if_true]
    obtain ⟨info, known, accepted⟩ := (honours gop.mode picked).accepted
    cases active.symm.trans known
    exact accepted
  · intro favourable chosen picked
    rw [gopPick] at picked
    split at picked
    · cases picked
    · rename_i found
      rw [if_pos rfl] at picked
      cases picked
      have usable := (pickLoop_found gop none).mp (by simpa using found)
      exact ⟨⟨gop.info, active, favourable usable⟩, fun _ impossible => by cases impossible⟩

/-- A mode is picked exactly when the loop has found it. -/
theorem gopPick_ok {wanted : Monitor} {chosen : Nat} :
    gopPick gop (some wanted) = .ok chosen ↔
      (pickLoop gop (some wanted) gop.maxMode 0 ⟨0, false⟩).foundMode = true ∧
        (pickLoop gop (some wanted) gop.maxMode 0 ⟨0, false⟩).choosenMode = chosen := by
  rw [gopPick]
  cases found : (pickLoop gop (some wanted) gop.maxMode 0 ⟨0, false⟩).foundMode <;> simp

/-- A mode with the resolution of the monitor stops the loop. -/
theorem stops_of_resolution {wanted : Monitor} {info : ModeInfo}
    (horizontal : info.horizontalResolution = wanted.hActive)
    (vertical : info.verticalResolution = wanted.vActive) : Stops (some wanted) info := by
  left
  rw [horizontal, vertical]

/-- A choice that honours the monitor shows that no 1920x1080 mode came first. -/
theorem favourable_of_honours {wanted : Monitor}
    (honours : ∀ chosen, gopPick gop (some wanted) = .ok chosen → Honours gop (some wanted) chosen) :
    Favourable gop (some wanted) := by
  intro exists' classic classicFits
  obtain ⟨mode, other, shown, horizontal, vertical⟩ := exists'
  rcases pickLoop_whole gop (some wanted) with ⟨info, stopped⟩ | scanned
  · have honoured := honours _ (gopPick_ok.mpr ⟨stopped.found, rfl⟩)
    obtain ⟨found, known, foundHorizontal, foundVertical⟩ :=
      honoured.exactly wanted rfl ⟨mode, other, shown, horizontal, vertical⟩
    cases stopped.shown.infoOf.symm.trans known
    refine ⟨_, ?_, info, stopped.shown, foundHorizontal, foundVertical⟩
    by_contra before
    obtain ⟨info', classicShown, resolution⟩ := classicFits
    exact stopped.passed classic (by omega) info' classicShown (.inr resolution)
  · exact absurd (stops_of_resolution horizontal vertical) (scanned.passed mode shown.inside other shown)

/-- In a favourable order the mode that stops the loop has the resolution of the monitor. -/
theorem Stopped.exactly {wanted : Monitor} {choice : Choice} {info : ModeInfo}
    (stopped : Stopped gop (some wanted) choice info) (favourable : Favourable gop (some wanted))
    (exists' : ∃ mode, Fits gop mode wanted.hActive wanted.vActive) :
    info.horizontalResolution = wanted.hActive ∧ info.verticalResolution = wanted.vActive := by
  rcases stopped.stops with same | classic
  · cases same
    exact ⟨rfl, rfl⟩
  · obtain ⟨mode, before, other, shown, horizontal, vertical⟩ :=
      favourable exists' choice.choosenMode ⟨info, stopped.shown, classic⟩
    by_cases earlier : mode < choice.choosenMode
    · exact absurd (stops_of_resolution horizontal vertical) (stopped.passed mode earlier other shown)
    · have same : mode = choice.choosenMode := by omega
      cases shown.queried.symm.trans (same ▸ stopped.shown.queried)
      exact ⟨horizontal, vertical⟩

/-- With a monitor the first mode that stops the loop decides. -/
theorem gopPick_monitor (gop : Gop) (wanted : Monitor) :
    (∀ chosen, gopPick gop (some wanted) = .ok chosen → Honours gop (some wanted) chosen) ↔
      Favourable gop (some wanted) := by
  constructor
  · exact favourable_of_honours
  · intro favourable chosen picked
    obtain ⟨found, rfl⟩ := gopPick_ok.mp picked
    rcases pickLoop_whole gop (some wanted) with ⟨info, stopped⟩ | scanned
    · refine ⟨⟨info, stopped.shown.infoOf, stopped.shown.accepted⟩, ?_⟩
      rintro _ ⟨rfl⟩ exists'
      exact ⟨info, stopped.shown.infoOf, stopped.exactly favourable exists'⟩
    · obtain ⟨info, shown⟩ := scanned.found found
      refine ⟨⟨info, shown.infoOf, shown.accepted⟩, ?_⟩
      rintro _ ⟨rfl⟩ ⟨mode, other, otherShown, horizontal, vertical⟩
      exact absurd (stops_of_resolution horizontal vertical)
        (scanned.passed mode otherShown.inside other otherShown)

/-- What `efi_main` chooses after the EDID has been read. -/
theorem chooseMode_of_edid {located : Option EdidProtocol} {monitor : Option Monitor}
    (read : readEdid located = .ok monitor) (gop : Gop) : chooseMode gop located = gopPick gop monitor := by
  rw [chooseMode, read]
  rfl

/-- The selection is as it should be for whatever the EDID says, unless it panics. -/
def SelectsWell (gop : Gop) (located : Option EdidProtocol) : Prop :=
  ∀ monitor chosen, readEdid located = .ok monitor → chooseMode gop located = .ok chosen →
    Honours gop monitor chosen

/-- The selection honours the monitor and the kernel exactly when the modes are in a favourable
order and the active mode is usable where it stays. -/
theorem selectsWell_iff (gop : Gop) (located : Option EdidProtocol) :
    SelectsWell gop located ↔ ∀ monitor, readEdid located = .ok monitor → Favourable gop monitor := by
  have pick (monitor : Option Monitor) :
      (∀ chosen, gopPick gop monitor = .ok chosen → Honours gop monitor chosen) ↔
        Favourable gop monitor := by
    cases monitor with
    | none => exact gopPick_skipped gop
    | some wanted => exact gopPick_monitor gop wanted
  constructor
  · intro selects monitor read
    apply (pick monitor).mp
    intro chosen picked
    exact selects monitor chosen read ((chooseMode_of_edid read gop).trans picked)
  · intro favourable monitor chosen read picked
    rw [chooseMode_of_edid read gop] at picked
    exact (pick monitor).mpr (favourable monitor read) chosen picked

/-- The monitor is 2560x1440, and the modes are 1920x1080 and 2560x1440 in this order. -/
def wideModes : Gop where
  maxMode := 2
  queryMode i := if i = 0 then some ⟨1920, 1080, 0⟩ else if i = 1 then some ⟨2560, 1440, 0⟩ else none
  mode := 0
  info := ⟨1920, 1080, 0⟩
  agrees := fun _ shown => (Option.some.inj shown).symm

def wideEdid : EdidProtocol where
  sizeOfEdid := 128
  edid := some fun i => if i = 54 then 1 else if i = 58 ∨ i = 59 then 0xA0 else if i = 61 then 0x50 else 0

/-- The 1920x1080 mode is chosen for the monitor that is 2560x1440. -/
theorem selectsWell_fails : ¬ SelectsWell wideModes (some wideEdid) := by
  intro selects
  have honours := selects (some ⟨2560, 1440⟩) 0 (by decide) (by decide)
  have fits : Fits wideModes 1 2560 1440 :=
    ⟨⟨2560, 1440, 0⟩, ⟨by decide, by decide, by decide⟩, rfl, rfl⟩
  obtain ⟨info, known, horizontal, _⟩ := honours.exactly ⟨2560, 1440⟩ rfl ⟨1, fits⟩
  cases known
  exact absurd horizontal (by decide)

end ArchaOS.GraphicsMode
