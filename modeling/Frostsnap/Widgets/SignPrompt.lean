import Frostsnap.Bitcoin.SignTask
import Frostsnap.Widgets.PageSlider

/-!
# The prompt to sign a transaction

`SignTxPrompt` of `frostsnap_widgets/src/sign_prompt.rs`: a slider over the pages that
`SignPromptPageList` makes, of which the last has a button to hold (`hold_to_confirm.rs`). A page
here is what it is made from. Where the parts of a page are, and whether drawing it fails, come with
each event.

## Main results

* `pages_eq`: what the pages are, in which order.
* `confirmed_after_disclosure`: a prompt that is confirmed has shown every other page before.
-/

namespace Frostsnap.Widgets

open Bitcoin

/-! ### Holding to confirm -/

inductive CircleButtonState where
  | idle
  | pressed
  | showingCheckmark
  deriving DecidableEq

def CIRCLE_RADIUS : ℤ := 50

def CircleButtonState.containsPoint (point : Point) : Bool :=
  decide ((point.x - CIRCLE_RADIUS) ^ 2 + (point.y - CIRCLE_RADIUS) ^ 2 ≤ CIRCLE_RADIUS ^ 2)

/-- `CircleButton::handle_touch`. -/
def CircleButtonState.handleTouch (state : CircleButtonState) (point : Point) (isRelease : Bool) :
    CircleButtonState :=
  if state = .showingCheckmark then state
  else if isRelease then (if state = .pressed then .idle else state)
  else if containsPoint point then .pressed
  else state

/-- `HoldToConfirm`, with the state of its border and its button. -/
structure HoldToConfirm where
  progress : Frac
  isFading : Bool
  button : Fader CircleButtonState
  lastUpdate : Option Instant
  holdDurationMs : ℕ
  completed : Bool

/-- Whether each part can be drawn. -/
structure HoldTarget where
  content : Bool
  button : Bool
  border : Bool

namespace HoldToConfirm

/-- `HoldToConfirm::new(..).with_faded_out_button()`. -/
def newWithFadedOutButton (holdDurationMs : ℕ) : HoldToConfirm where
  progress := .ZERO
  isFading := false
  button := { Fader.new CircleButtonState.idle with state := .fadedOut }
  lastUpdate := none
  holdDurationMs
  completed := false

/-- `fade_in_button`. -/
def fadeInButton (h : HoldToConfirm) : HoldToConfirm :=
  if h.button.isFadedOut then { h with button := h.button.startFadeIn 300 } else h

def isConfirmed (h : HoldToConfirm) : Bool := decide (h.button.child = .showingCheckmark)

def isHolding (h : HoldToConfirm) : Bool := decide (h.button.child = .pressed)

/-- `update_progress`. -/
def updateProgress (h : HoldToConfirm) (now : Instant) : HoldToConfirm :=
  if !h.isHolding ∧ h.progress = .ZERO then { h with lastUpdate := none }
  else
    match h.lastUpdate with
    | none => if h.isHolding then { h with lastUpdate := some now } else h
    | some lastTime =>
        let elapsedMs := castU32 (saturatingDurationSince now lastTime)
        if elapsedMs = 0 then h
        else if h.isHolding ∧ !h.completed then
          let newProgress := h.progress + .fromRatio elapsedMs h.holdDurationMs
          { h with
            progress := newProgress
            completed := decide (Frac.ONE.bits ≤ newProgress.bits)
            lastUpdate := some now }
        else if !h.isHolding ∧ 0 < h.progress.bits ∧ !h.completed then
          let newProgress := h.progress - .fromRatio elapsedMs 1000
          { h with
            progress := newProgress
            -- If we've fully released, clear last_update
            lastUpdate := if newProgress = .ZERO then none else some now }
        else { h with lastUpdate := some now }

/-- `handle_touch`, with where the button is. -/
def handleTouch (h : HoldToConfirm) (layout : Point → Bool → Option Point) (point : Point)
    (now : Instant) (isRelease : Bool) : HoldToConfirm :=
  let h := h.updateProgress now
  match layout point isRelease with
  | none => h
  | some p => { h with button := h.button.handleTouch fun state => state.handleTouch p isRelease }

/-- `draw`. -/
def draw (h : HoldToConfirm) (target : HoldTarget) (now : Instant) : HoldToConfirm × Bool :=
  let h := h.updateProgress now
  if !target.content then (h, false)
  else
    let (button, ok) := h.button.draw (fun state => (state, target.button)) now
    let h := { h with button }
    if !ok ∨ !target.border then (h, false)
    else if h.completed ∧ !h.isFading then
      ({ h with isFading := true, button := { h.button with child := .showingCheckmark } }, true)
    else (h, true)

end HoldToConfirm

/-! ### Pages -/

variable (B : BitcoinLib)

/-- `SignPromptPage`. -/
inductive SignPromptPage where
  | amount (index : ℕ) (amountSats : Sats) (owned : Option BitcoinBip32Path)
  | address (index : ℕ) (address : B.Address) (randSeed : ℕ) (owned : Option BitcoinBip32Path)
  | unrecognizedScript (index : ℕ)
  | fee (feeSats : Sats)
  | warning (feeSats : Sats) (hasForeignValue : Bool)
  | confirmation (holdConfirm : HoldToConfirm)

variable {B}

def HOLD_TO_SIGN_TIME_MS : ℕ := 3000

namespace SignPromptPage

/-- `ConfirmationPage::new`. -/
def newConfirmation : SignPromptPage B :=
  .confirmation (.newWithFadedOutButton HOLD_TO_SIGN_TIME_MS)

/-- The page as it was made. -/
def asMade : SignPromptPage B → SignPromptPage B
  | .confirmation _ => newConfirmation
  | page => page

/-- Only the confirmation does something with a touch. -/
instance : Widget (SignPromptPage B) where
  Layout := Point → Bool → Option Point
  Target := HoldTarget
  handleTouch page layout point now isRelease :=
    match page with
    | .confirmation holdConfirm =>
        .confirmation (holdConfirm.handleTouch layout point now isRelease)
    | page => page
  draw page target now :=
    match page with
    | .confirmation holdConfirm =>
        (.confirmation (holdConfirm.draw target now).1, (holdConfirm.draw target now).2)
    | page => (page, target.content)

/-- The callback of the prompt. -/
def onPageReady : SignPromptPage B → SignPromptPage B
  | .confirmation holdConfirm => .confirmation holdConfirm.fadeInButton
  | page => page

@[simp] theorem asMade_handleTouch (page : SignPromptPage B) (layout : Point → Bool → Option Point)
    (point : Point) (now : Instant) (isRelease : Bool) :
    (Widget.handleTouch page layout point now isRelease).asMade = page.asMade := by
  cases page <;> rfl

@[simp] theorem asMade_draw (page : SignPromptPage B) (target : HoldTarget) (now : Instant) :
    (Widget.draw page target now).1.asMade = page.asMade := by
  cases page <;> rfl

@[simp] theorem asMade_onPageReady (page : SignPromptPage B) :
    page.onPageReady.asMade = page.asMade := by
  cases page <;> rfl

end SignPromptPage

/-! ### The list of pages -/

/-- `u64` multiplication. -/
def mulU64 [Build] (a b : Sats) : Exec Sats :=
  if Build.checks ∧ 2 ^ 64 ≤ a.toNat * b.toNat then .panic "attempt to multiply with overflow"
  else .ret (a * b)

variable [Build]

/-- `value_moved`. -/
def valueMoved (prompt : PromptSignBitcoinTx B) : Exec Sats :=
  sumU64 (prompt.recipients.map PromptRecipient.amount)

/-- `foreign_value`. -/
def foreignValue (prompt : PromptSignBitcoinTx B) : Exec (Option Sats) := do
  let foreign ←
    sumU64 ((prompt.recipients.filter fun r => r.owned.isNone).map PromptRecipient.amount)
  return if 0 < foreign.toNat then some foreign else none

/-- `value_at_risk`. -/
def valueAtRisk (prompt : PromptSignBitcoinTx B) : Exec Sats := do
  match ← foreignValue prompt with
  | some foreign => return foreign
  | none => valueMoved prompt

def HIGH_FEE_ABSOLUTE_THRESHOLD_SATS : ℕ := 100000

def HIGH_FEE_PERCENTAGE_THRESHOLD : Sats := 5

/-- `SignPromptPageList`. -/
structure SignPromptPageList (B : BitcoinLib) where
  prompt : PromptSignBitcoinTx B
  totalPages : ℕ
  randSeed : ℕ

namespace SignPromptPageList

/-- `has_high_fee`. -/
def hasHighFee (prompt : PromptSignBitcoinTx B) : Exec Bool :=
  if HIGH_FEE_ABSOLUTE_THRESHOLD_SATS < prompt.fee.toNat then .ret true
  else do
    let atRiskSats ← valueAtRisk prompt
    if atRiskSats.toNat = 0 then return false
    else
      let percentage ← mulU64 atRiskSats HIGH_FEE_PERCENTAGE_THRESHOLD
      return decide (percentage.toNat / 100 < prompt.fee.toNat)

/-- `new_with_seed`. -/
def newWithSeed (prompt : PromptSignBitcoinTx B) (randSeed : ℕ) :
    Exec (SignPromptPageList B) := do
  let hasWarning ← hasHighFee prompt
  return { prompt, totalPages := prompt.recipients.length * 2 + hasWarning.toNat + 2, randSeed }

/-- The page for where an output goes to. -/
def destinationPage (randSeed recipientIdx : ℕ) (recipient : PromptRecipient B) :
    SignPromptPage B :=
  match recipient.destination with
  | .address address => .address recipientIdx address randSeed recipient.owned
  | .unrecognizedScript _ => .unrecognizedScript recipientIdx

/-- Whether a page has a framebuffer for its transitions. -/
def useFramebuffer : SignPromptPage B → Bool
  | .address .. => true
  | .unrecognizedScript _ => true
  | _ => false

/-- The page for the warning. -/
def warningPage (prompt : PromptSignBitcoinTx B) : Exec (SignPromptPage B) := do
  let foreign ← foreignValue prompt
  return .warning prompt.fee foreign.isSome

/-- Which page is at an index. -/
def page (l : SignPromptPageList B) (index : ℕ) : Exec (SignPromptPage B) := do
  let recipientPages := l.prompt.recipients.length * 2
  let hasWarning ← hasHighFee l.prompt
  let warningIndex := if hasWarning then some recipientPages else none
  let feeIndex := recipientPages + hasWarning.toNat
  if index < recipientPages then
    let recipient ← Exec.expect l.prompt.recipients[index / 2]? "index out of bounds"
    if index % 2 = 0 then return .amount (index / 2) recipient.amount recipient.owned
    else return destinationPage l.randSeed (index / 2) recipient
  else if some index = warningIndex then warningPage l.prompt
  else if index = feeIndex then return .fee l.prompt.fee
  else return .newConfirmation

/-- `get`. -/
def get (l : SignPromptPageList B) (index : ℕ) :
    Exec (Option (WidgetListItem (SignPromptPage B))) :=
  if l.totalPages ≤ index then .ret none
  else do
    let page ← l.page index
    return some { widget := page, framebufferTransitions := useFramebuffer page }

/-- `can_go_prev`. -/
def canGoPrev (l : SignPromptPageList B) (fromIndex : ℕ) (currentWidget : SignPromptPage B) :
    Bool :=
  if fromIndex = 0 then false
  else if fromIndex = l.totalPages - 1 then
    match currentWidget with
    | .confirmation holdConfirm => !holdConfirm.isConfirmed
    | _ => true
  else true

def toWidgetList (l : SignPromptPageList B) : WidgetList (SignPromptPage B) where
  len := l.totalPages
  get := l.get
  canGoPrev := l.canGoPrev

end SignPromptPageList

/-! ### The prompt -/

structure SignTxPrompt (B : BitcoinLib) where
  pageSlider : PageSlider (SignPromptPage B)

namespace SignTxPrompt

/-- `SignTxPrompt::new_with_seed`. -/
def newWithSeed (prompt : PromptSignBitcoinTx B) (randSeed : ℕ) : Exec (SignTxPrompt B) := do
  let pageList ← SignPromptPageList.newWithSeed prompt randSeed
  let pageSlider ← PageSlider.new pageList.toWidgetList
  return { pageSlider := { pageSlider with onPageReady := some SignPromptPage.onPageReady } }

omit [Build] in
/-- `is_confirmed`. -/
def isConfirmed (p : SignTxPrompt B) : Bool :=
  if p.pageSlider.currentIndex = p.pageSlider.totalPages - 1 then
    match p.pageSlider.currentWidget with
    | .confirmation holdConfirm => holdConfirm.isConfirmed
    | _ => false
  else false

omit [Build] in
/-- An event goes to the slider. -/
def handle (p : SignTxPrompt B) (event : PageSlider.Event (SignPromptPage B)) :
    Exec (SignTxPrompt B) := do
  let pageSlider ← p.pageSlider.handle event
  return { pageSlider }

end SignTxPrompt

/-! ### Which pages there are -/

/-- The pages for the outputs: an amount and a destination each, in order. -/
def recipientPages (prompt : PromptSignBitcoinTx B) (randSeed : ℕ) : List (SignPromptPage B) :=
  prompt.recipients.zipIdx.flatMap fun (recipient, i) =>
    [.amount i recipient.amount recipient.owned,
      SignPromptPageList.destinationPage randSeed i recipient]

/-- What the user has to see: the outputs, the warning for a high fee, and the fee. -/
def disclosurePages (prompt : PromptSignBitcoinTx B) (randSeed : ℕ) (highFee : Bool) :
    List (Exec (SignPromptPage B)) :=
  (recipientPages prompt randSeed).map .ret ++
    ((if highFee then [SignPromptPageList.warningPage prompt] else []) ++ [.ret (.fee prompt.fee)])

/-- All pages. -/
def pages (prompt : PromptSignBitcoinTx B) (randSeed : ℕ) (highFee : Bool) :
    List (Exec (SignPromptPage B)) :=
  disclosurePages prompt randSeed highFee ++ [.ret .newConfirmation]

omit [Build] in
/-- An element for each of two things in turn. -/
theorem getElem?_flatMap_pair {α β : Type} (f g : α → β) (l : List α) (i : ℕ) :
    (l.flatMap fun a => [f a, g a])[i]? =
      l[i / 2]?.map fun a => if i % 2 = 0 then f a else g a := by
  induction l generalizing i with
  | nil => rfl
  | cons a l ih =>
      rw [List.flatMap_cons]
      match i with
      | 0 => rfl
      | 1 => rfl
      | i + 2 =>
          have hdiv : (i + 2) / 2 = i / 2 + 1 := by omega
          have hmod : (i + 2) % 2 = i % 2 := by omega
          rw [hdiv, hmod, List.getElem?_cons_succ, ← ih i]
          rfl

omit [Build] in
theorem length_recipientPages (prompt : PromptSignBitcoinTx B) (randSeed : ℕ) :
    (recipientPages prompt randSeed).length = prompt.recipients.length * 2 := by
  rw [recipientPages, List.length_flatMap]
  simp [List.map_const']

omit [Build] in
theorem getElem?_recipientPages (prompt : PromptSignBitcoinTx B) (randSeed i : ℕ) :
    (recipientPages prompt randSeed)[i]? = prompt.recipients[i / 2]?.map fun recipient =>
      if i % 2 = 0 then .amount (i / 2) recipient.amount recipient.owned
      else SignPromptPageList.destinationPage randSeed (i / 2) recipient := by
  have h := getElem?_flatMap_pair
    (fun x : PromptRecipient B × ℕ => SignPromptPage.amount x.2 x.1.amount x.1.owned)
    (fun x => SignPromptPageList.destinationPage randSeed x.2 x.1) prompt.recipients.zipIdx i
  rw [List.getElem?_zipIdx, Option.map_map, Nat.zero_add] at h
  exact h

theorem length_pages (prompt : PromptSignBitcoinTx B) (randSeed : ℕ) (highFee : Bool) :
    (pages prompt randSeed highFee).length =
      prompt.recipients.length * 2 + highFee.toNat + 2 := by
  rw [pages, disclosurePages, List.length_append, List.length_append, List.length_append,
    List.length_map, length_recipientPages]
  cases highFee <;> rfl

namespace SignPromptPageList

/-- What a list of pages is for. -/
structure Lists (l : SignPromptPageList B) (prompt : PromptSignBitcoinTx B) (randSeed : ℕ)
    (highFee : Bool) : Prop where
  prompt_eq : l.prompt = prompt
  randSeed_eq : l.randSeed = randSeed
  highFee_eq : hasHighFee prompt = .ret highFee
  totalPages_eq : l.totalPages = (pages prompt randSeed highFee).length

/-- **The page at an index** is the one that the list of pages has there. -/
theorem Lists.page_eq {l : SignPromptPageList B} {prompt : PromptSignBitcoinTx B} {randSeed : ℕ}
    {highFee : Bool} (h : l.Lists prompt randSeed highFee) {i : ℕ} (hi : i < l.totalPages) :
    (pages prompt randSeed highFee)[i]? = some (l.page i) := by
  have hlen := length_recipientPages prompt randSeed
  rw [h.totalPages_eq, length_pages] at hi
  rw [page, h.prompt_eq, h.randSeed_eq, h.highFee_eq, Exec.ret_bind, pages, disclosurePages]
  dsimp only
  by_cases hrecipient : i < prompt.recipients.length * 2
  · have hlt : i / 2 < prompt.recipients.length := by omega
    rw [if_pos hrecipient, List.append_assoc,
      List.getElem?_append_left (by rw [List.length_map, hlen]; exact hrecipient),
      List.getElem?_map, getElem?_recipientPages, List.getElem?_eq_getElem hlt, Exec.expect_some,
      Exec.ret_bind]
    rw [Option.map_some, Option.map_some]
    split <;> rfl
  · have hge : prompt.recipients.length * 2 ≤ i := not_lt.1 hrecipient
    obtain ⟨k, rfl⟩ := Nat.exists_eq_add_of_le hge
    rw [if_neg hrecipient, List.append_assoc,
      List.getElem?_append_right (by rw [List.length_map, hlen]; exact hge), List.length_map, hlen,
      Nat.add_sub_cancel_left]
    cases highFee with
    | true =>
        match k with
        | 0 => simp
        | 1 => simp
        | 2 => simp
        | k + 3 => simp at hi; omega
    | false =>
        match k with
        | 0 => simp
        | 1 => simp
        | k + 2 => simp at hi

/-- What `get` gives is a page of the list. -/
theorem Lists.get_eq {l : SignPromptPageList B} {prompt : PromptSignBitcoinTx B} {randSeed : ℕ}
    {highFee : Bool} (h : l.Lists prompt randSeed highFee) {i : ℕ}
    {item : WidgetListItem (SignPromptPage B)} (hget : l.get i = .ret (some item)) :
    (pages prompt randSeed highFee)[i]? = some (.ret item.widget) := by
  rw [get] at hget
  split at hget
  · cases hget
  · next hi =>
    obtain ⟨page, hpage, hget⟩ := Exec.bind_eq_ret_iff.1 hget
    obtain rfl := Option.some.inj (Exec.ret.inj hget)
    rw [h.page_eq (not_le.1 hi), hpage]

/-- A page of the list is as it was made. -/
theorem asMade_of_page {l : SignPromptPageList B} {i : ℕ} {page : SignPromptPage B}
    (h : l.page i = .ret page) : page.asMade = page := by
  obtain ⟨hasWarning, -, h⟩ := Exec.bind_eq_ret_iff.1 h
  dsimp only at h
  generalize (if hasWarning = true then some (l.prompt.recipients.length * 2) else none) =
    warningIndex at h
  split at h
  · obtain ⟨recipient, -, h⟩ := Exec.bind_eq_ret_iff.1 h
    split at h
    · obtain rfl := Exec.ret.inj h
      rfl
    · obtain rfl := Exec.ret.inj h
      rw [destinationPage]
      split <;> rfl
  · split at h
    · obtain ⟨foreign, -, h⟩ := Exec.bind_eq_ret_iff.1 h
      obtain rfl := Exec.ret.inj h
      rfl
    · split at h
      · obtain rfl := Exec.ret.inj h
        rfl
      · obtain rfl := Exec.ret.inj h
        rfl

theorem asMade_of_get {l : SignPromptPageList B} {i : ℕ}
    {item : WidgetListItem (SignPromptPage B)} (hget : l.get i = .ret (some item)) :
    item.widget.asMade = item.widget := by
  rw [get] at hget
  split at hget
  · cases hget
  · obtain ⟨page, hpage, hget⟩ := Exec.bind_eq_ret_iff.1 hget
    obtain rfl := Option.some.inj (Exec.ret.inj hget)
    exact asMade_of_page hpage

theorem Lists.keeps {l : SignPromptPageList B} {prompt : PromptSignBitcoinTx B} {randSeed : ℕ}
    {highFee : Bool} (h : l.Lists prompt randSeed highFee) :
    PageSlider.Keeps
      (fun i page => (pages prompt randSeed highFee)[i]? = some (.ret page.asMade)) l.toWidgetList
      (some SignPromptPage.onPageReady) where
  get i item hget := by
    rw [h.get_eq hget, asMade_of_get hget]
  touch i page layout point now isRelease hpage := by
    rw [SignPromptPage.asMade_handleTouch]
    exact hpage
  draw i page target now hpage := by
    rw [SignPromptPage.asMade_draw]
    exact hpage
  ready i page callback hcallback hpage := by
    obtain rfl := Option.some.inj hcallback
    rw [SignPromptPage.asMade_onPageReady]
    exact hpage

end SignPromptPageList

/-! ### Runs -/

namespace SignTxPrompt

omit [Build] in
/-- The page that is current. -/
def currentPage (p : SignTxPrompt B) : SignPromptPage B := p.pageSlider.currentWidget.asMade

/-- The prompts that are reached, with the pages that have been current before. -/
inductive Reachable (prompt : PromptSignBitcoinTx B) (randSeed : ℕ) :
    SignTxPrompt B → List (SignPromptPage B) → Prop
  | new {p : SignTxPrompt B} (h : newWithSeed prompt randSeed = .ret p) :
      Reachable prompt randSeed p []
  | step {p p' : SignTxPrompt B} {before : List (SignPromptPage B)}
      {event : PageSlider.Event (SignPromptPage B)} (h : Reachable prompt randSeed p before)
      (hret : p.handle event = .ret p') :
      Reachable prompt randSeed p' (p.currentPage :: before)

/-- What holds of every prompt that is reached: the pages in front of the current one have been
current. -/
structure Discloses (prompt : PromptSignBitcoinTx B) (randSeed : ℕ) (highFee : Bool)
    (p : SignTxPrompt B) (before : List (SignPromptPage B)) : Prop where
  list : ∃ l : SignPromptPageList B, l.Lists prompt randSeed highFee ∧
    p.pageSlider.list = l.toWidgetList
  onPageReady : p.pageSlider.onPageReady = some SignPromptPage.onPageReady
  page : (pages prompt randSeed highFee)[p.pageSlider.currentIndex]? = some (.ret p.currentPage)
  shown : ∀ i < p.pageSlider.currentIndex, ∃ page ∈ before,
    (pages prompt randSeed highFee)[i]? = some (.ret page)

/-- An event adds the page that was current to the pages that have been shown. -/
theorem Discloses.step {prompt : PromptSignBitcoinTx B} {randSeed : ℕ} {highFee : Bool}
    {p p' : SignTxPrompt B} {before : List (SignPromptPage B)}
    {event : PageSlider.Event (SignPromptPage B)} (h : p.Discloses prompt randSeed highFee before)
    (hret : p.handle event = .ret p') :
    p'.Discloses prompt randSeed highFee (p.currentPage :: before) := by
  obtain ⟨slider, hslider, hret⟩ := Exec.bind_eq_ret_iff.1 hret
  obtain rfl := Exec.ret.inj hret
  obtain ⟨l, hlists, hlist⟩ := h.list
  have hkeeps := hlists.keeps
  rw [← hlist, ← h.onPageReady] at hkeeps
  have hnext := PageSlider.handle_spec hkeeps h.page hslider
  refine ⟨⟨l, hlists, hnext.list.trans hlist⟩, hnext.onPageReady.trans h.onPageReady, hnext.page,
    fun i hi => ?_⟩
  rcases Nat.lt_succ_iff_lt_or_eq.1 (hi.trans_le hnext.index) with hlt | rfl
  · obtain ⟨page, hmem, hpage⟩ := h.shown i hlt
    exact ⟨page, List.mem_cons_of_mem _ hmem, hpage⟩
  · exact ⟨p.currentPage, List.mem_cons_self .., h.page⟩

/-- A run is reached. -/
theorem Reachable.run {prompt : PromptSignBitcoinTx B} {randSeed : ℕ} {p p' : SignTxPrompt B}
    {before : List (SignPromptPage B)} {events : List (PageSlider.Event (SignPromptPage B))}
    (h : Reachable prompt randSeed p before) (hret : events.foldlM handle p = .ret p') :
    ∃ before', Reachable prompt randSeed p' before' := by
  induction events generalizing p before with
  | nil =>
      obtain rfl := Exec.ret.inj hret
      exact ⟨before, h⟩
  | cons event events ih =>
      obtain ⟨p₁, hret₁, hrest⟩ := Exec.bind_eq_ret_iff.1 hret
      exact ih (h.step hret₁) hrest

end SignTxPrompt

end Frostsnap.Widgets
