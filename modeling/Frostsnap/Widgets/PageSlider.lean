import Frostsnap.Lib.Exec
import Mathlib

/-!
# Pages that are swiped through

`PageSlider` of `frostsnap_widgets/src/page_slider.rs` with what it is made of: the fixed-point
numbers of `rat.rs`, `Fader`, `Translate` and `SlideInTransition`. What ends on the screen is left
out. What a widget does with a touch, whether it can be drawn and whether an animation is over is
kept.

## Main results

* `handle_spec`: after an event the current page is still one that the list has at the current
  index, and the index went up by one at most.
-/

namespace Frostsnap.Widgets

/-! ### Numbers -/

/-- Milliseconds. -/
abbrev Instant := ℕ

/-- How long ago something was, or zero if it is yet to come. -/
def saturatingDurationSince (now earlier : Instant) : ℕ := now - earlier

/-- `as u32`: longer times wrap. -/
def castU32 (n : ℕ) : ℕ := n % 2 ^ 32

/-- A fraction in steps of `2⁻¹⁵`, up to 1. -/
structure Frac where
  bits : ℕ
  deriving DecidableEq

namespace Frac

/-- The start of an animation. -/
def ZERO : Frac := ⟨0⟩

/-- Its end. -/
def ONE : Frac := ⟨2 ^ 15⟩

/-- `Frac::from_ratio`, rounded to the nearest step. -/
def fromRatio (numerator denominator : ℕ) : Frac :=
  if denominator ≤ numerator then ONE
  else ⟨(numerator * 2 ^ 15 + denominator / 2) / denominator⟩

instance : Add Frac where
  add a b := ⟨min (a.bits + b.bits) ONE.bits⟩

instance : Sub Frac where
  sub a b := ⟨a.bits - b.bits⟩

instance : Mul Frac where
  mul a b := ⟨a.bits * b.bits / 2 ^ 15⟩

/-- A coordinate times a fraction, rounded toward zero. -/
def scale (p : Frac) (n : ℤ) : ℤ := (n * (2 * p.bits)).tdiv (2 ^ 16)

end Frac

/-- A position on the screen. -/
structure Point where
  x : ℤ
  y : ℤ
  deriving DecidableEq

namespace Point

/-- Where a widget is at rest. -/
def zero : Point := ⟨0, 0⟩

instance : Sub Point where
  sub a b := ⟨a.x - b.x, a.y - b.y⟩

def scale (p : Point) (by_ : Frac) : Point := ⟨by_.scale p.x, by_.scale p.y⟩

end Point

/-- How an animation speeds up or slows down. -/
inductive AnimationSpeed where
  | linear
  | easeIn
  | easeOut

/-- Cubic, for the two that are not linear. -/
def AnimationSpeed.apply (speed : AnimationSpeed) (progress : Frac) : Frac :=
  match speed with
  | linear => progress
  | easeIn => progress * progress * progress
  | easeOut =>
      let oneMinusT := Frac.ONE - progress
      Frac.ONE - oneMinusT * oneMinusT * oneMinusT

/-! ### Fading -/

/-- A fade without a start time has not been drawn yet. -/
inductive FadeState where
  | idle
  | fadingOut (startTime : Option Instant) (durationMs : ℕ)
  | fadingIn (startTime : Option Instant) (durationMs : ℕ)
  | fadedOut

/-- A widget that can be faded out and in. -/
structure Fader (W : Type) where
  child : W
  state : FadeState
  animationSpeed : AnimationSpeed

namespace Fader

variable {W : Type}

/-- `Fader::new`. -/
def new (child : W) : Fader W where
  child
  state := .idle
  animationSpeed := .linear

/-- `Fader::new_faded_out`. -/
def newFadedOut (child : W) : Fader W where
  child
  state := .fadedOut
  animationSpeed := .linear

/-- `start_fade`. It can only make fades happen faster. -/
def startFade (f : Fader W) (durationMs : ℕ) : Fader W :=
  match f.state with
  | .fadedOut => f
  | .fadingOut (some startTime) current =>
      { f with state := .fadingOut (some startTime) (min durationMs current) }
  | _ => { f with state := .fadingOut none durationMs }

/-- `start_fade_in`. It can only make fades happen faster. -/
def startFadeIn (f : Fader W) (durationMs : ℕ) : Fader W :=
  match f.state with
  | .idle => f
  | .fadingIn (some startTime) current =>
      { f with state := .fadingIn (some startTime) (min durationMs current) }
  | _ => { f with state := .fadingIn none durationMs }

/-- `instant_fade`: the next time it is drawn it is gone. -/
def instantFade (f : Fader W) : Fader W := f.startFade 0

/-- Nothing of the widget is shown. -/
def isFadedOut (f : Fader W) : Bool :=
  match f.state with
  | .fadedOut => true
  | _ => false

/-- The widget is shown as it is. -/
def isNotFaded (f : Fader W) : Bool :=
  match f.state with
  | .idle => true
  | _ => false

/-- The widget is on its way in. -/
def isFadingIn (f : Fader W) : Bool :=
  match f.state with
  | .fadingIn .. => true
  | _ => false

/-- `is_visible`: at rest or on the way in. -/
def isVisible (f : Fader W) : Bool := f.isNotFaded || f.isFadingIn

/-- Only a widget that is shown is touched. -/
def handleTouch (f : Fader W) (touch : W → W) : Fader W :=
  if f.isNotFaded then { f with child := touch f.child } else f

/-- How far a fade is. -/
def fadeProgress (f : Fader W) (startTime : Instant) (durationMs : ℕ) (now : Instant) : Frac :=
  f.animationSpeed.apply
    (.fromRatio (castU32 (saturatingDurationSince now startTime)) (castU32 durationMs))

/-- `draw`, with how its child is drawn; whether that went well. -/
def draw (f : Fader W) (drawChild : W → W × Bool) (now : Instant) : Fader W × Bool :=
  match f.state with
  | .fadedOut => (f, true)
  | .idle =>
      let (child, ok) := drawChild f.child
      ({ f with child }, ok)
  | .fadingOut startTime durationMs =>
      let startTime := startTime.getD now
      let (child, ok) := drawChild f.child
      let f := { f with child, state := .fadingOut (some startTime) durationMs }
      if ok ∧ f.fadeProgress startTime durationMs now = .ONE
        then ({ f with state := .fadedOut }, ok)
      else (f, ok)
  | .fadingIn startTime durationMs =>
      let startTime := startTime.getD now
      let (child, ok) := drawChild f.child
      let f := { f with child, state := .fadingIn (some startTime) durationMs }
      if ok ∧ .ONE - f.fadeProgress startTime durationMs now = .ZERO then
        ({ f with state := .idle }, ok)
      else (f, ok)

end Fader

/-! ### Sliding -/

/-- At rest at an offset, or on the way to one or from one. -/
inductive TranslationDirection where
  | animating (offset : Point) (duration : ℕ) (startTime : Option Instant) (fromOffset : Bool)
  | idle (offset : Point)

/-- A widget that can be moved. -/
structure Translate (W : Type) where
  child : W
  currentOffset : Point
  translationDirection : TranslationDirection
  animationSpeed : AnimationSpeed
  useFramebuffer : Bool

namespace Translate

variable {W : Type}

/-- `Translate::new`. -/
def new (child : W) : Translate W where
  child
  currentOffset := .zero
  translationDirection := .idle .zero
  animationSpeed := .linear
  useFramebuffer := false

/-- `animate_from`. -/
def animateFrom (t : Translate W) (from_ : Point) (duration : ℕ) : Translate W :=
  { t with translationDirection := .animating from_ duration none true }

/-- The widget is at rest. -/
def isIdle (t : Translate W) : Bool :=
  match t.translationDirection with
  | .idle _ => true
  | .animating .. => false

/-- `calculate_offset` of an animation that does not repeat. -/
def calculateOffset (t : Translate W) (now : Instant) : Translate W × Point :=
  match t.translationDirection with
  | .idle offset => (t, offset)
  | .animating offset duration startTime fromOffset =>
      let start := startTime.getD now
      let elapsedMs := castU32 (saturatingDurationSince now start)
      if castU32 duration ≤ elapsedMs then
        let finalPosition := if fromOffset then .zero else offset
        ({ t with translationDirection := .idle finalPosition }, finalPosition)
      else
        let progress := t.animationSpeed.apply (.fromRatio elapsedMs (castU32 duration))
        ({ t with translationDirection := .animating offset duration (some start) fromOffset },
          offset.scale (if fromOffset then .ONE - progress else progress))

/-- The touch is moved with the widget. -/
def handleTouch (t : Translate W) (touch : Point → W → W) (point : Point) : Translate W :=
  { t with child := touch (point - t.currentOffset) t.child }

/-- `draw`, with how its child is drawn. A widget with a framebuffer does not note where it is when
it is drawn at rest. -/
def draw (t : Translate W) (drawChild : W → W × Bool) (now : Instant) : Translate W × Bool :=
  let (t, offset) := t.calculateOffset now
  let (child, ok) := drawChild t.child
  let t := { t with child }
  if ok ∧ ¬(t.useFramebuffer ∧ t.isIdle) then ({ t with currentOffset := offset }, ok) else (t, ok)

end Translate

/-! ### Widgets -/

/-- What the slider needs of a widget. -/
class Widget (W : Type) where
  /-- where the parts of the widget are -/
  Layout : Type
  /-- what it is drawn on -/
  Target : Type
  handleTouch : W → Layout → Point → Instant → Bool → W
  /-- whether drawing went well -/
  draw : W → Target → Instant → W × Bool

/-- A page that slides in once the one before has faded out. -/
structure SlideInTransition (W : Type) where
  current : Fader (Translate W)
  old : Option (Fader (Translate W))
  transitionDurationMs : ℕ
  slideFromPosition : Point
  constraints : Option (ℕ × ℕ)

namespace SlideInTransition

variable {W : Type}

/-- A widget that slides and fades in. -/
def newFader (widget : W) (slideFromPosition : Point) (transitionDurationMs : ℕ)
    (useFramebuffer : Bool) : Fader (Translate W) :=
  let newTranslate := { Translate.new widget with useFramebuffer, animationSpeed := .easeOut }
  { Fader.newFadedOut (newTranslate.animateFrom slideFromPosition transitionDurationMs) with
    animationSpeed := .easeOut }

/-- `SlideInTransition::new`. -/
def new (initial : W) (transitionDurationMs : ℕ) (slideFromPosition : Point)
    (useFramebuffer : Bool) : SlideInTransition W where
  current := newFader initial slideFromPosition transitionDurationMs useFramebuffer
  old := none
  transitionDurationMs
  slideFromPosition
  constraints := none

/-- `current_widget_mut`, to read. -/
def currentWidget (s : SlideInTransition W) : W := s.current.child.child

/-- `current_widget_mut`, to write. -/
def modifyCurrent (s : SlideInTransition W) (f : W → W) : SlideInTransition W :=
  { s with current := { s.current with child :=
    { s.current.child with child := f s.current.child.child } } }

/-- The page is where it belongs, and not on its way out. -/
def isTransitionComplete (s : SlideInTransition W) : Bool :=
  s.current.isVisible && s.current.child.isIdle

/-- `switch_to_with_framebuffer`. -/
def switchToWithFramebuffer (s : SlideInTransition W) (widget : W) (useFramebuffer : Bool) :
    SlideInTransition W :=
  { s with
    current := newFader widget s.slideFromPosition s.transitionDurationMs useFramebuffer
    old := if s.current.isVisible then some s.current.instantFade else s.old }

variable [Widget W]

def handleTouch (s : SlideInTransition W) (layout : Widget.Layout W) (point : Point)
    (now : Instant) (isRelease : Bool) : SlideInTransition W :=
  { s with current := s.current.handleTouch fun t =>
      t.handleTouch (fun p w => Widget.handleTouch w layout p now isRelease) point }

/-- A widget is drawn where it is. -/
def drawFader (f : Fader (Translate W)) (target : Widget.Target W) (now : Instant) :
    Fader (Translate W) × Bool :=
  f.draw (fun t => t.draw (fun w => Widget.draw w target now) now) now

/-- `draw`, with what the old and the new widget are drawn on. -/
def draw (s : SlideInTransition W) (oldTarget target : Widget.Target W) (now : Instant) :
    Exec (SlideInTransition W) := do
  let _ ← Exec.expect s.constraints "called `Option::unwrap()` on a `None` value"
  let drawCurrent (s : SlideInTransition W) : SlideInTransition W :=
    let current :=
      if s.current.isFadedOut then s.current.startFadeIn s.transitionDurationMs else s.current
    { s with current := (drawFader current target now).1 }
  match s.old with
  | none => return drawCurrent s
  | some old =>
      -- Draw old widget once to let it fade out (clear pixels)
      let (old, ok) := drawFader old oldTarget now
      if ok ∧ old.isFadedOut then return drawCurrent { s with old := none }
      else return { s with old := some old }

end SlideInTransition

/-! ### Lists of pages -/

/-- A page, and whether it slides with a framebuffer. -/
structure WidgetListItem (W : Type) where
  widget : W
  framebufferTransitions : Bool

/-- `WidgetList`, with what it has for navigation by default. -/
structure WidgetList (W : Type) where
  len : ℕ
  get : ℕ → Exec (Option (WidgetListItem W))
  canGoNext : ℕ → W → Bool := fun fromIndex _ => decide (fromIndex + 1 < len)
  canGoPrev : ℕ → W → Bool := fun fromIndex _ => decide (0 < fromIndex)

/-- Where the finger goes: up is to the next page. -/
inductive Direction where
  | up
  | down

/-- How long a page slides. -/
def ANIMATION_DURATION_MS : ℕ := 750

/-- A drag by more than this is a swipe. -/
def MIN_SWIPE_DISTANCE : ℕ := 0

/-- How far away a page starts. -/
def DEFAULT_SLIDE_DISTANCE : ℕ := 40

/-- The slider. The chevron that it draws over a page does not do anything. -/
structure PageSlider (W : Type) where
  list : WidgetList W
  currentIndex : ℕ
  transition : SlideInTransition W
  dragStart : Option ℕ
  slideDistance : ℕ
  onPageReady : Option (W → W)
  pageReadyTriggered : Bool

namespace PageSlider

variable {W : Type}

/-- `PageSlider::new`. -/
def new (list : WidgetList W) : Exec (PageSlider W) := do
  let item ← Exec.expect (← list.get 0) "PageSlider requires at least one widget in the list"
  return {
    list
    currentIndex := 0
    transition := .new item.widget ANIMATION_DURATION_MS .zero item.framebufferTransitions
    dragStart := none
    slideDistance := DEFAULT_SLIDE_DISTANCE
    onPageReady := none
    pageReadyTriggered := false }

/-- `total_pages`. -/
def totalPages (s : PageSlider W) : ℕ := s.list.len

/-- `has_next`. -/
def hasNext (s : PageSlider W) : Bool := decide (s.currentIndex + 1 < s.list.len)

/-- `has_prev`. -/
def hasPrev (s : PageSlider W) : Bool := decide (0 < s.currentIndex)

def currentWidget (s : PageSlider W) : W := s.transition.currentWidget

/-- Whether the list lets the user go on from the current page. -/
def allowed (s : PageSlider W) : Direction → Bool
  | .up => s.list.canGoNext s.currentIndex s.currentWidget
  | .down => s.list.canGoPrev s.currentIndex s.currentWidget

/-- The index to go to, if there is one. -/
def targetIndex (s : PageSlider W) : Direction → Option ℕ
  | .up => if s.hasNext then some (s.currentIndex + 1) else none
  | .down => if s.hasPrev then some (s.currentIndex - 1) else none

/-- `start_transition`. -/
def startTransition (s : PageSlider W) (direction : Direction) : Exec (PageSlider W) :=
  if s.allowed direction = false then .ret s
  else
    match s.targetIndex direction with
    | none => .ret s
    | some targetIndex => do
        match ← s.list.get targetIndex with
        | none => return s
        | some item =>
            let distance : ℤ := s.slideDistance
            let slideFrom : Point :=
              match direction with
              | .up => ⟨0, distance⟩
              | .down => ⟨0, -distance⟩
            let transition := { s.transition with slideFromPosition := slideFrom }
            return { s with
              transition := transition.switchToWithFramebuffer item.widget
                item.framebufferTransitions
              currentIndex := targetIndex
              pageReadyTriggered := false }

/-- `handle_vertical_drag`. -/
def handleVerticalDrag (s : PageSlider W) (newY : ℕ) (isRelease : Bool) : Exec (PageSlider W) :=
  if isRelease then
    match s.dragStart with
    | none => .ret s
    | some dragStart =>
        let s := { s with dragStart := none }
        if dragStart + MIN_SWIPE_DISTANCE < newY then s.startTransition .down
        else if newY + MIN_SWIPE_DISTANCE < dragStart then s.startTransition .up
        else .ret s
  else if s.dragStart.isNone then .ret { s with dragStart := some newY }
  else .ret s

/-- The callback for a page whose transition is complete. -/
def pageReady (s : PageSlider W) : PageSlider W :=
  if s.pageReadyTriggered = false ∧ s.transition.isTransitionComplete = true then
    match s.onPageReady with
    | none => { s with pageReadyTriggered := true }
    | some callback =>
        { s with
          pageReadyTriggered := true
          transition := s.transition.modifyCurrent callback }
  else s

variable [Widget W]

/-- `draw`. -/
def draw (s : PageSlider W) (oldTarget target : Widget.Target W) (now : Instant) :
    Exec (PageSlider W) := do
  let s := s.pageReady
  let transition ← s.transition.draw oldTarget target now
  return { s with transition }

/-- What is fed to a slider. -/
inductive Event (W : Type) [Widget W] where
  | setConstraints (maxSize : ℕ × ℕ)
  | touch (layout : Widget.Layout W) (point : Point) (now : Instant) (isRelease : Bool)
  | verticalDrag (newY : ℕ) (isRelease : Bool)
  | draw (oldTarget target : Widget.Target W) (now : Instant)

/-- An event is handled. -/
def handle (s : PageSlider W) : Event W → Exec (PageSlider W)
  | .setConstraints maxSize =>
      .ret { s with transition := { s.transition with constraints := some maxSize } }
  | .touch layout point now isRelease =>
      .ret { s with transition := s.transition.handleTouch layout point now isRelease }
  | .verticalDrag newY isRelease => s.handleVerticalDrag newY isRelease
  | .draw oldTarget target now => s.draw oldTarget target now

end PageSlider

/-! ### What stays -/

/-- Drawing a widget that moves draws it once. -/
theorem Translate.child_draw {W : Type} (t : Translate W) (drawChild : W → W × Bool)
    (now : Instant) : (t.draw drawChild now).1.child = (drawChild t.child).1 := by
  have hchild : (t.calculateOffset now).1.child = t.child := by
    rw [calculateOffset]
    split
    · rfl
    · dsimp only
      split <;> rfl
  rw [draw]
  dsimp only
  split
  · rw [hchild]
  · rw [hchild]

/-- The child of a fader is drawn, or it is not. -/
theorem Fader.child_draw {W : Type} (f : Fader W) (drawChild : W → W × Bool) (now : Instant) :
    (f.draw drawChild now).1.child = f.child ∨
      (f.draw drawChild now).1.child = (drawChild f.child).1 := by
  rw [draw]
  split
  · exact Or.inl rfl
  · exact Or.inr rfl
  · right
    dsimp only
    split <;> rfl
  · right
    dsimp only
    split <;> rfl

/-- A widget that fades is not touched. -/
theorem Fader.child_handleTouch {W : Type} (f : Fader W) (touch : W → W) :
    (f.handleTouch touch).child = f.child ∨ (f.handleTouch touch).child = touch f.child := by
  rw [handleTouch]
  split
  · exact Or.inr rfl
  · exact Or.inl rfl

namespace SlideInTransition

variable {W : Type} [Widget W]

/-- The page is touched somewhere, or not at all. -/
theorem currentWidget_handleTouch (s : SlideInTransition W) (layout : Widget.Layout W)
    (point : Point) (now : Instant) (isRelease : Bool) :
    (s.handleTouch layout point now isRelease).currentWidget = s.currentWidget ∨
      ∃ p, (s.handleTouch layout point now isRelease).currentWidget =
        Widget.handleTouch s.currentWidget layout p now isRelease := by
  rcases s.current.child_handleTouch (fun t =>
    t.handleTouch (fun p w => Widget.handleTouch w layout p now isRelease) point) with h | h
  · exact Or.inl (congrArg Translate.child h)
  · exact Or.inr ⟨_, congrArg Translate.child h⟩

/-- The page of a fader is drawn, or it is not. -/
theorem widget_drawFader (f : Fader (Translate W)) (target : Widget.Target W) (now : Instant) :
    (drawFader f target now).1.child.child = f.child.child ∨
      (drawFader f target now).1.child.child = (Widget.draw f.child.child target now).1 := by
  rcases f.child_draw (fun t => t.draw (fun w => Widget.draw w target now) now) now with h | h
  · exact Or.inl (congrArg Translate.child h)
  · right
    rw [drawFader, h, Translate.child_draw]

/-- The new page waits until the old one is gone, and is then drawn. -/
theorem currentWidget_draw {s s' : SlideInTransition W} {oldTarget target : Widget.Target W}
    {now : Instant} (h : s.draw oldTarget target now = .ret s') :
    s'.currentWidget = s.currentWidget ∨
      s'.currentWidget = (Widget.draw s.currentWidget target now).1 := by
  have hcurrent : ∀ f : Fader (Translate W), f.child = s.current.child →
      (drawFader f target now).1.child.child = s.currentWidget ∨
        (drawFader f target now).1.child.child = (Widget.draw s.currentWidget target now).1 := by
    intro f hf
    have hdraw := widget_drawFader f target now
    rwa [hf] at hdraw
  have hfadeIn : (s.current.startFadeIn s.transitionDurationMs).child = s.current.child := by
    rw [Fader.startFadeIn]
    split <;> rfl
  have hstart : (if s.current.isFadedOut then s.current.startFadeIn s.transitionDurationMs
      else s.current).child = s.current.child := by
    split
    · exact hfadeIn
    · rfl
  obtain ⟨-, -, h⟩ := Exec.bind_eq_ret_iff.1 h
  dsimp only at h
  split at h
  · obtain rfl := Exec.ret.inj h
    exact hcurrent _ hstart
  · split at h
    · obtain rfl := Exec.ret.inj h
      exact hcurrent _ hstart
    · obtain rfl := Exec.ret.inj h
      exact Or.inl rfl

end SlideInTransition

namespace PageSlider

variable {W : Type}

/-- A page of the list, whatever has happened to it since. -/
structure Keeps [Widget W] (P : ℕ → W → Prop) (list : WidgetList W)
    (onPageReady : Option (W → W)) : Prop where
  get : ∀ i item, list.get i = .ret (some item) → P i item.widget
  touch : ∀ i w layout point now isRelease, P i w →
    P i (Widget.handleTouch w layout point now isRelease)
  draw : ∀ i w target now, P i w → P i (Widget.draw w target now).1
  ready : ∀ i w callback, onPageReady = some callback → P i w → P i (callback w)

/-- What an event leaves: the same list, and a page of it that is next to the last one at most. -/
structure Next (P : ℕ → W → Prop) (s s' : PageSlider W) : Prop where
  list : s'.list = s.list
  onPageReady : s'.onPageReady = s.onPageReady
  page : P s'.currentIndex s'.currentWidget
  index : s'.currentIndex ≤ s.currentIndex + 1

variable {P : ℕ → W → Prop}

/-- One page on at most. -/
theorem targetIndex_le {s : PageSlider W} {direction : Direction} {i : ℕ}
    (h : s.targetIndex direction = some i) : i ≤ s.currentIndex + 1 := by
  cases direction with
  | up =>
      rw [targetIndex, Option.ite_none_right_eq_some, Option.some_inj] at h
      exact Nat.le_of_eq h.2.symm
  | down =>
      rw [targetIndex, Option.ite_none_right_eq_some, Option.some_inj] at h
      omega

/-- **A transition** goes to a page of the list next to the current one. -/
theorem startTransition_spec {s s' : PageSlider W} {direction : Direction}
    (hget : ∀ i item, s.list.get i = .ret (some item) → P i item.widget)
    (hpage : P s.currentIndex s.currentWidget) (h : s.startTransition direction = .ret s') :
    s.Next P s' := by
  have hstay : s.Next P s := ⟨rfl, rfl, hpage, Nat.le_succ _⟩
  rw [startTransition] at h
  split at h
  · obtain rfl := Exec.ret.inj h
    exact hstay
  · split at h
    · obtain rfl := Exec.ret.inj h
      exact hstay
    · next targetIndex htarget =>
      obtain ⟨found, hfound, h⟩ := Exec.bind_eq_ret_iff.1 h
      cases found with
      | none =>
          obtain rfl := Exec.ret.inj h
          exact hstay
      | some item =>
          obtain rfl := Exec.ret.inj h
          exact ⟨rfl, rfl, hget targetIndex item hfound, targetIndex_le htarget⟩

/-- A drag ends with a transition or without one. -/
theorem handleVerticalDrag_spec {s s' : PageSlider W} {newY : ℕ} {isRelease : Bool}
    (hget : ∀ i item, s.list.get i = .ret (some item) → P i item.widget)
    (hpage : P s.currentIndex s.currentWidget)
    (h : s.handleVerticalDrag newY isRelease = .ret s') : s.Next P s' := by
  have hstart : ∀ direction, ({ s with dragStart := none } : PageSlider W).startTransition
      direction = .ret s' → s.Next P s' := by
    intro direction h
    obtain ⟨hlist, hready, hpage', hindex⟩ :=
      @startTransition_spec W P { s with dragStart := none } s' direction hget hpage h
    exact ⟨hlist, hready, hpage', hindex⟩
  rw [handleVerticalDrag] at h
  split at h
  · split at h
    · obtain rfl := Exec.ret.inj h
      exact ⟨rfl, rfl, hpage, Nat.le_succ _⟩
    · dsimp only at h
      split at h
      · exact hstart .down h
      · split at h
        · exact hstart .up h
        · obtain rfl := Exec.ret.inj h
          exact ⟨rfl, rfl, hpage, Nat.le_succ _⟩
  · split at h
    · obtain rfl := Exec.ret.inj h
      exact ⟨rfl, rfl, hpage, Nat.le_succ _⟩
    · obtain rfl := Exec.ret.inj h
      exact ⟨rfl, rfl, hpage, Nat.le_succ _⟩

variable [Widget W]

/-- The callback is for the page that is there. -/
theorem pageReady_spec {s : PageSlider W} (hkeeps : Keeps P s.list s.onPageReady)
    (hpage : P s.currentIndex s.currentWidget) : s.Next P s.pageReady := by
  rw [pageReady]
  split
  · split
    · exact ⟨rfl, rfl, hpage, Nat.le_succ _⟩
    · next callback hcallback =>
      exact ⟨rfl, rfl, hkeeps.ready _ _ callback hcallback hpage, Nat.le_succ _⟩
  · exact ⟨rfl, rfl, hpage, Nat.le_succ _⟩

/-- Drawing leaves the page, once its callback has run. -/
theorem draw_spec {s s' : PageSlider W} {oldTarget target : Widget.Target W} {now : Instant}
    (hkeeps : Keeps P s.list s.onPageReady) (hpage : P s.currentIndex s.currentWidget)
    (h : s.draw oldTarget target now = .ret s') : s.Next P s' := by
  have hready := pageReady_spec hkeeps hpage
  obtain ⟨transition, hdraw, h⟩ := Exec.bind_eq_ret_iff.1 h
  obtain rfl := Exec.ret.inj h
  refine ⟨hready.list, hready.onPageReady, ?_, hready.index⟩
  have hpage' := hready.page
  rcases SlideInTransition.currentWidget_draw hdraw with hsame | hdrawn
  · rw [currentWidget, ← hsame] at hpage'
    exact hpage'
  · have hdraw' := hkeeps.draw _ _ target now hpage'
    rw [currentWidget, ← hdrawn] at hdraw'
    exact hdraw'

/-- **After an event** the current page is one of the list, next to the last one at most. -/
theorem handle_spec {s s' : PageSlider W} {event : Event W}
    (hkeeps : Keeps P s.list s.onPageReady) (hpage : P s.currentIndex s.currentWidget)
    (h : s.handle event = .ret s') : s.Next P s' := by
  cases event with
  | setConstraints maxSize =>
      obtain rfl := Exec.ret.inj h
      exact ⟨rfl, rfl, hpage, Nat.le_succ _⟩
  | touch layout point now isRelease =>
      obtain rfl := Exec.ret.inj h
      refine ⟨rfl, rfl, ?_, Nat.le_succ _⟩
      rcases s.transition.currentWidget_handleTouch layout point now isRelease with hsame | ⟨p, hp⟩
      · dsimp only
        rw [currentWidget, hsame]
        exact hpage
      · dsimp only
        rw [currentWidget, hp]
        exact hkeeps.touch _ _ layout p now isRelease hpage
  | verticalDrag newY isRelease => exact handleVerticalDrag_spec hkeeps.get hpage h
  | draw oldTarget target now => exact draw_spec hkeeps hpage h

end PageSlider

end Frostsnap.Widgets
