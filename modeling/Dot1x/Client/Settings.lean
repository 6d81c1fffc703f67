import Dot1x.Base.History
import Dot1x.Client.Profile

/-!
# The settings in the dialogs

The login dialog shows the user name, the password and four check boxes. It reads them from the
registry as the program starts and writes them there as it exits. The properties dialog shows three of
the boxes again. So that both show the same, the login dialog writes its boxes before it opens the
properties dialog and reads those three behind it. Both of its functions that write the boxes write
the box for connecting automatically twice, the second time to the entry of the box for DHCP.
-/

namespace Dot1x.Client

open Dot1x.Base

/-- The members of `LoginDlg` that stand for its controls. -/
structure LoginForm where
  userName : List UInt8
  password : List UInt8
  keepPassword : ℤ
  autoRun : ℤ
  autoConnect : ℤ
  dhcpEnable : ℤ
  deriving DecidableEq

/-- The members of `RunningPropertyPage` that stand for its controls. -/
structure RunningForm where
  keepPassword : ℤ
  autoRun : ℤ
  autoConnect : ℤ
  disconnectOnIdle : ℤ
  idleTimeout : ℤ
  deriving DecidableEq

/-- What the user does to a control of the login dialog. -/
inductive LoginEdit
  | userName (text : List UInt8)
  | password (text : List UInt8)
  | keepPassword (checked : Bool)
  | autoRun (checked : Bool)
  | autoConnect (checked : Bool)
  | dhcpEnable (checked : Bool)
  deriving DecidableEq

/-- What the user does to a control of the property page. -/
inductive RunningEdit
  | keepPassword (checked : Bool)
  | autoRun (checked : Bool)
  | autoConnect (checked : Bool)
  | disconnectOnIdle (selected : Bool)
  | idleTimeout (n : ℤ)
  deriving DecidableEq

/-- What is done by the user and by the program. -/
inductive SettingsEvent
  /-- The user has changed a control of the login dialog. -/
  | edited (e : LoginEdit)
  /-- The user applies what the property page shows. -/
  | applied (page : RunningForm)
  /-- The login dialog comes up with these values. -/
  | shown (form : LoginForm)
  /-- The property page comes up with these values. -/
  | pageShown (page : RunningForm)
  | profile (ev : ProfileEvent)
  /-- `SetAutoRun` -/
  | autoRunSet (on : Bool)
  deriving DecidableEq

/-- The value of a member for a check box or a radio button. -/
def checkValue (checked : Bool) : ℤ := if checked then 1 else 0

/-- What a check box makes of the value of its member. -/
def ddxCheck (n : ℤ) : ℤ := if n < 0 ∨ 2 < n then 0 else n

/-- What a group of two radio buttons makes of the value of its member. -/
def ddxRadio (n : ℤ) : ℤ := if n = 0 ∨ n = 1 then n else -1

namespace LoginForm

def edit (form : LoginForm) : LoginEdit → LoginForm
  | .userName text => { form with userName := text }
  | .password text => { form with password := text }
  | .keepPassword checked => { form with keepPassword := checkValue checked }
  | .autoRun checked => { form with autoRun := checkValue checked }
  | .autoConnect checked => { form with autoConnect := checkValue checked }
  | .dhcpEnable checked => { form with dhcpEnable := checkValue checked }

/-- `UpdateData(false)` -/
def toControls (form : LoginForm) : LoginForm :=
  { form with
    keepPassword := ddxCheck form.keepPassword
    autoRun := ddxCheck form.autoRun
    autoConnect := ddxCheck form.autoConnect
    dhcpEnable := ddxCheck form.dhcpEnable }

/-- The password is loaded if it is to be kept. -/
def loadPassword (keepPassword : ℤ) (r : Profile) : ProfileCall (List UInt8) :=
  if keepPassword ≠ 0 then r.getEncrypt "Main" "Password" [] else pure []

/-- The password is stored if it is to be kept. -/
def savePassword (form : LoginForm) (r : Profile) : ProfileCall Profile :=
  if form.keepPassword ≠ 0 then r.writeEncrypt "Main" "Password" form.password else pure r

/-- `OnInitDialog`, up to `UpdateData`. -/
def onInitDialog (r : Profile) : ProfileCall LoginForm := do
  let password ← loadPassword (r.getInt "Running" "KeepPassword" 0) r
  pure
    { userName := r.getString "Main" "UserName"
      password := password
      keepPassword := r.getInt "Running" "KeepPassword" 0
      autoRun := r.getInt "Running" "AutoRun" 0
      autoConnect := r.getInt "Running" "AutoConnect" 0
      dhcpEnable := r.getInt "Running" "DhcpEnable" 0 }

/-- What `OnDestroy` writes to the registry. -/
def onDestroy (form : LoginForm) (r : Profile) : ProfileCall Profile := do
  let r ← r.writeString "Main" "UserName" form.userName
  let r ← form.savePassword r
  let r ← r.writeInt "Running" "KeepPassword" form.keepPassword
  let r ← r.writeInt "Running" "AutoRun" form.autoRun
  let r ← r.writeInt "Running" "AutoConnect" form.autoConnect
  r.writeInt "Running" "DhcpEnable" form.autoConnect

/-- `OnProperties`, before the dialog. -/
def onProperties (form : LoginForm) (r : Profile) : ProfileCall Profile := do
  let r ← r.writeInt "Running" "KeepPassword" form.keepPassword
  let r ← r.writeInt "Running" "AutoRun" form.autoRun
  let r ← r.writeInt "Running" "AutoConnect" form.autoConnect
  r.writeInt "Running" "DhcpEnable" form.autoConnect

/-- `OnProperties`, behind the dialog and up to `UpdateData`. -/
def reload (form : LoginForm) (r : Profile) : LoginForm :=
  { form with
    keepPassword := r.getInt "Running" "KeepPassword" 0
    autoRun := r.getInt "Running" "AutoRun" 0
    autoConnect := r.getInt "Running" "AutoConnect" 0 }

end LoginForm

namespace RunningForm

def edit (page : RunningForm) : RunningEdit → RunningForm
  | .keepPassword checked => { page with keepPassword := checkValue checked }
  | .autoRun checked => { page with autoRun := checkValue checked }
  | .autoConnect checked => { page with autoConnect := checkValue checked }
  | .disconnectOnIdle selected => { page with disconnectOnIdle := checkValue selected }
  | .idleTimeout n => { page with idleTimeout := n }

/-- `UpdateData(false)` -/
def toControls (page : RunningForm) : RunningForm :=
  { page with
    keepPassword := ddxCheck page.keepPassword
    autoRun := ddxCheck page.autoRun
    autoConnect := ddxCheck page.autoConnect
    disconnectOnIdle := ddxRadio page.disconnectOnIdle }

/-- `OnInitDialog`, up to `UpdateData`. -/
def onInitDialog (r : Profile) : RunningForm where
  keepPassword := r.getInt "Running" "KeepPassword" 0
  autoRun := r.getInt "Running" "AutoRun" 0
  autoConnect := r.getInt "Running" "AutoConnect" 0
  disconnectOnIdle := r.getInt "Running" "DisconnectOnIdle" 0
  idleTimeout := r.getInt "Running" "IdleTimeout" 60

/-- What `OnApply` writes to the registry. -/
def onApply (page : RunningForm) (r : Profile) : ProfileCall Profile := do
  let r ← r.writeInt "Running" "KeepPassword" page.keepPassword
  let r ← r.writeInt "Running" "AutoRun" page.autoRun
  let r ← r.writeInt "Running" "AutoConnect" page.autoConnect
  let r ← r.writeInt "Running" "DisconnectOnIdle" page.disconnectOnIdle
  r.writeInt "Running" "IdleTimeout" page.idleTimeout

end RunningForm

/-- The dialogs that are open, with their controls. The login dialog waits for the properties dialog. -/
inductive Dialogs
  | none
  | login (form : LoginForm)
  | properties (form : LoginForm) (page : RunningForm)

/-- The registry and the dialogs. -/
structure SettingsState where
  profile : Profile
  dialogs : Dialogs

/-- What the user does. -/
inductive SettingsAction
  | edit (e : LoginEdit)
  | openProperties
  | editPage (e : RunningEdit)
  | apply
  | closeProperties
  | exit
  | start
  deriving DecidableEq

/-- A call of a handler. -/
abbrev SettingsCall := Exec SettingsEvent ProfileFault

/-- What a function of the settings does is seen. -/
def onProfile {α : Type} (x : ProfileCall α) : SettingsCall α := ⟨x.log.map .profile, x.result⟩

namespace SettingsState

/-- Before the first start. -/
def fresh : SettingsState := ⟨.empty, .none⟩

/-- The program does not run: it may be started. -/
def stepNone (r : Profile) : SettingsAction → SettingsCall SettingsState
  | .start => do
    let form ← onProfile (LoginForm.onInitDialog r)
    Exec.tell (.shown form.toControls)
    pure ⟨r, .login form.toControls⟩
  | _ => pure ⟨r, .none⟩

/-- The login dialog is open. Each of its handlers begins with `UpdateData(true)`. -/
def stepLogin (r : Profile) (form : LoginForm) : SettingsAction → SettingsCall SettingsState
  | .edit e => do
    Exec.tell (.edited e)
    pure ⟨r, .login (form.edit e)⟩
  | .openProperties => do
    let r ← onProfile (form.onProperties r)
    let page := (RunningForm.onInitDialog r).toControls
    Exec.tell (.pageShown page)
    pure ⟨r, .properties form page⟩
  | .exit => do
    let r ← onProfile (form.onDestroy r)
    Exec.tell (.autoRunSet (form.autoRun ≠ 0))
    pure ⟨r, .none⟩
  | _ => pure ⟨r, .login form⟩

/-- The properties dialog is open. -/
def stepProperties (r : Profile) (form : LoginForm) (page : RunningForm) :
    SettingsAction → SettingsCall SettingsState
  | .editPage e => pure ⟨r, .properties form (page.edit e)⟩
  | .apply => do
    Exec.tell (.applied page)
    let r ← onProfile (page.onApply r)
    Exec.tell (.autoRunSet (page.autoRun ≠ 0))
    pure ⟨r, .properties form page⟩
  | .closeProperties => pure ⟨r, .login (form.reload r).toControls⟩
  | _ => pure ⟨r, .properties form page⟩

def step (s : SettingsState) (a : SettingsAction) : SettingsCall SettingsState :=
  match s.dialogs with
  | .none => stepNone s.profile a
  | .login form => stepLogin s.profile form a
  | .properties form page => stepProperties s.profile form page a

end SettingsState

/-- The settings. -/
inductive Setting
  | userName
  | keepPassword
  | autoRun
  | autoConnect
  | dhcpEnable
  | disconnectOnIdle
  | idleTimeout
  deriving DecidableEq

namespace Setting

/-- The section of a setting. -/
def sect : Setting → String
  | .userName => "Main"
  | _ => "Running"

/-- The entry of a setting. -/
def entry : Setting → String
  | .userName => "UserName"
  | .keepPassword => "KeepPassword"
  | .autoRun => "AutoRun"
  | .autoConnect => "AutoConnect"
  | .dhcpEnable => "DhcpEnable"
  | .disconnectOnIdle => "DisconnectOnIdle"
  | .idleTimeout => "IdleTimeout"

end Setting

/-- The value that the user has set last for every setting. -/
structure Settings where
  userName : List UInt8
  keepPassword : ℤ
  autoRun : ℤ
  autoConnect : ℤ
  dhcpEnable : ℤ
  disconnectOnIdle : ℤ
  idleTimeout : ℤ

namespace Settings

/-- Nothing was ever set. -/
def initial : Settings := ⟨[], 0, 0, 0, 0, 0, 60⟩

/-- The user sets a value in the login dialog. -/
def edit (L : Settings) : LoginEdit → Settings
  | .userName text => { L with userName := text }
  | .password _ => L
  | .keepPassword checked => { L with keepPassword := checkValue checked }
  | .autoRun checked => { L with autoRun := checkValue checked }
  | .autoConnect checked => { L with autoConnect := checkValue checked }
  | .dhcpEnable checked => { L with dhcpEnable := checkValue checked }

/-- The user sets values in the properties dialog. -/
def apply (L : Settings) (page : RunningForm) : Settings :=
  { L with
    keepPassword := page.keepPassword
    autoRun := page.autoRun
    autoConnect := page.autoConnect
    disconnectOnIdle := page.disconnectOnIdle
    idleTimeout := page.idleTimeout }

def after (L : Settings) : SettingsEvent → Settings
  | .edited e => L.edit e
  | .applied page => L.apply page
  | _ => L

/-- What was set last in a history. -/
def lastSet (past : List SettingsEvent) : Settings := past.foldl after initial

/-- How a setting is stored. -/
def value (L : Settings) : Setting → ProfileValue
  | .userName => .string L.userName
  | .keepPassword => .int L.keepPassword
  | .autoRun => .int L.autoRun
  | .autoConnect => .int L.autoConnect
  | .dhcpEnable => .int L.dhcpEnable
  | .disconnectOnIdle => .int L.disconnectOnIdle
  | .idleTimeout => .int L.idleTimeout

/-- The login dialog shows the settings. -/
structure ShownIn (L : Settings) (form : LoginForm) : Prop where
  userName : form.userName = L.userName
  keepPassword : form.keepPassword = L.keepPassword
  autoRun : form.autoRun = L.autoRun
  autoConnect : form.autoConnect = L.autoConnect
  dhcpEnable : form.dhcpEnable = L.dhcpEnable

/-- The property page shows the settings. -/
structure ShownOn (L : Settings) (page : RunningForm) : Prop where
  keepPassword : page.keepPassword = L.keepPassword
  autoRun : page.autoRun = L.autoRun
  autoConnect : page.autoConnect = L.autoConnect
  disconnectOnIdle : page.disconnectOnIdle = L.disconnectOnIdle
  idleTimeout : page.idleTimeout = L.idleTimeout

/-- The dialogs show what was set last, and what is stored is stored under the name of a setting and
is the value that was set last for it, or it is the password. -/
def Kept (L : Settings) : SettingsEvent → Prop
  | .shown form => L.ShownIn form
  | .pageShown page => L.ShownOn page
  | .profile (.stored sect entry v) =>
    (∃ x : Setting, x.sect = sect ∧ x.entry = entry ∧ L.value x = v) ∨
      sect = "Main" ∧ entry = "Password"
  | .autoRunSet on => on = true ↔ L.autoRun ≠ 0
  | _ => True

end Settings

/-- The value of a setting that is read from the registry. -/
def Profile.reads (r : Profile) : Setting → ProfileValue
  | .userName => .string (r.getString "Main" "UserName")
  | .keepPassword => .int (r.getInt "Running" "KeepPassword" 0)
  | .autoRun => .int (r.getInt "Running" "AutoRun" 0)
  | .autoConnect => .int (r.getInt "Running" "AutoConnect" 0)
  | .dhcpEnable => .int (r.getInt "Running" "DhcpEnable" 0)
  | .disconnectOnIdle => .int (r.getInt "Running" "DisconnectOnIdle" 0)
  | .idleTimeout => .int (r.getInt "Running" "IdleTimeout" 60)

/-- Store some of the settings. -/
def Profile.puts (r : Profile) (L : Settings) (xs : List Setting) : Profile :=
  xs.foldl (fun r x => r.set x.sect x.entry (L.value x)) r

/-- The values that a check box and a pair of radio buttons can have. -/
def Checked (n : ℤ) : Prop := n = 0 ∨ n = 1

/-- A check box gives one of the two values that it can show. -/
theorem checked_checkValue (checked : Bool) : Checked (checkValue checked) := by
  cases checked
  · exact Or.inl rfl
  · exact Or.inr rfl

/-- A value that a check box can show is shown and read back. -/
theorem ddxCheck_of_checked {n : ℤ} (h : Checked n) : ddxCheck n = n := by
  rcases h with rfl | rfl <;> rfl

/-- The same for a radio button. -/
theorem ddxRadio_of_checked {n : ℤ} (h : Checked n) : ddxRadio n = n := if_pos h

/-- The names of the settings are different. -/
theorem Setting.entry_injective {x y : Setting} (h : x.entry = y.entry) : x = y := by
  cases x <;> cases y <;> first | rfl | simp [entry] at h

/-- No setting has the name of the password. -/
theorem Setting.entry_ne_password (x : Setting) : x.entry ≠ "Password" := by
  cases x <;> simp [entry]

namespace Profile

variable {r r' : Profile} {L : Settings} {x y : Setting} {xs : List Setting}

/-- A setting is read from its own entry. -/
private theorem reads_congr (h : r x.sect x.entry = r' x.sect x.entry) : r.reads x = r'.reads x
    := by
  cases x <;> simp only [Setting.sect, Setting.entry] at h <;>
    simp only [reads, getString, getInt, h]

/-- A setting that is written is read back. -/
theorem reads_set_self : (r.set x.sect x.entry (L.value x)).reads x = L.value x := by
  cases x <;>
    simp only [reads, getString, getInt, Setting.sect, Setting.entry, Settings.value, set_self]

/-- What is stored under another name leaves a setting alone. -/
theorem reads_set_of_ne {sect entry : String} {v : ProfileValue} (h : x.entry ≠ entry) :
    (r.set sect entry v).reads x = r.reads x :=
  reads_congr (set_of_ne (Or.inr h))

/-- The settings that were stored have their values, the others are left alone. -/
theorem reads_puts (h : y ∈ xs ∨ r.reads y = L.value y) : (r.puts L xs).reads y = L.value y := by
  induction xs generalizing r with
  | nil => exact h.resolve_left List.not_mem_nil
  | cons x xs ih =>
    refine ih ?_
    by_cases hxy : y = x
    · subst hxy
      exact Or.inr reads_set_self
    · rw [reads_set_of_ne fun hentry => hxy (Setting.entry_injective hentry)]
      exact h.imp_left fun hmem => (List.mem_cons.mp hmem).resolve_left hxy

/-- The password is left alone. -/
theorem puts_password (r : Profile) (L : Settings) (xs : List Setting) :
    r.puts L xs "Main" "Password" = r "Main" "Password" := by
  induction xs generalizing r with
  | nil => rfl
  | cons x xs ih =>
    rw [puts, List.foldl_cons]
    exact (ih _).trans (set_of_ne (Or.inr x.entry_ne_password.symm))

end Profile

namespace Settings

open SettingsState

variable {past : List SettingsEvent} {L : Settings} {r : Profile} {s : SettingsState}
  {form : LoginForm} {page : RunningForm} {a : SettingsAction} {log : List ProfileEvent}
  {ev : SettingsEvent}

/-- The settings have values that the controls can have. -/
structure Valid (L : Settings) : Prop where
  keepPassword : Checked L.keepPassword
  autoRun : Checked L.autoRun
  autoConnect : Checked L.autoConnect
  dhcpEnable : Checked L.dhcpEnable
  disconnectOnIdle : Checked L.disconnectOnIdle

/-- The values on the property page are ones that the controls can have. -/
structure ValidOn (page : RunningForm) : Prop where
  keepPassword : Checked page.keepPassword
  autoRun : Checked page.autoRun
  autoConnect : Checked page.autoConnect
  disconnectOnIdle : Checked page.disconnectOnIdle

/-- Where the settings are: in the registry, in the login dialog or in both. -/
def Agrees (L : Settings) (r : Profile) : Dialogs → Prop
  | .none => (∀ x, r.reads x = L.value x) ∧
      (L.keepPassword ≠ 0 → ∃ bytes, r.getBinary "Main" "Password" = some bytes)
  | .login form => L.ShownIn form ∧
      ∀ x, x = .disconnectOnIdle ∨ x = .idleTimeout → r.reads x = L.value x
  | .properties form page => form.userName = L.userName ∧ form.dhcpEnable = L.dhcpEnable ∧
      ValidOn page ∧ ∀ x, x ≠ .userName ∧ x ≠ .dhcpEnable → r.reads x = L.value x

/-- What was set last is where it should be. -/
structure Remembers (past : List SettingsEvent) (s : SettingsState) : Prop where
  valid : (lastSet past).Valid
  agrees : (lastSet past).Agrees s.profile s.dialogs

/-- What happens is what should happen by what was set last. -/
def KeptAlong (past : List SettingsEvent) (ev : SettingsEvent) : Prop := (lastSet past).Kept ev

/-- When the login dialog writes its boxes, the box for DHCP stands as the one for connecting
automatically. -/
def DhcpFollows (_past : List SettingsEvent) (s : SettingsState) (a : SettingsAction) : Prop :=
  a = .openProperties ∨ a = .exit →
    ∀ form, s.dialogs = .login form → form.dhcpEnable = form.autoConnect

/-- The last setting of a history that grows. -/
theorem lastSet_concat (past : List SettingsEvent) (ev : SettingsEvent) :
    lastSet (past ++ [ev]) = (lastSet past).after ev := by
  rw [lastSet, List.foldl_append]
  rfl

/-- The registry sets nothing. -/
theorem lastSet_profile (past : List SettingsEvent) (log : List ProfileEvent) :
    lastSet (past ++ log.map .profile) = lastSet past := by
  induction log generalizing past with
  | nil => rw [List.map_nil, List.append_nil]
  | cons ev log ih =>
    rw [List.map_cons, ← List.singleton_append, ← List.append_assoc, ih, lastSet_concat]
    rfl

/-- The settings stay the same along what is done to the registry. -/
theorem along_profile : Along KeptAlong past (log.map .profile) ↔
    ∀ ev ∈ log, (lastSet past).Kept (.profile ev) := by
  induction log generalizing past with
  | nil => simp
  | cons ev log ih =>
    rw [List.map_cons, Along.cons_iff, ih, List.forall_mem_cons, lastSet_concat]
    rfl

/-- What is done to the registry, and one thing more. -/
theorem along_profile_concat : Along KeptAlong past (log.map .profile ++ [ev]) ↔
    (∀ e ∈ log, (lastSet past).Kept (.profile e)) ∧ (lastSet past).Kept ev := by
  rw [Along.append_iff, along_profile, Along.cons_iff, KeptAlong, lastSet_profile]
  simp only [Along.nil, and_true]

/-- Storing settings under their names. -/
theorem kept_puts {xs : List Setting} {e : ProfileEvent}
    (h : e ∈ xs.map fun x => .stored x.sect x.entry (L.value x)) : L.Kept (.profile e) := by
  obtain ⟨x, -, rfl⟩ := List.mem_map.mp h
  exact Or.inl ⟨x, rfl, rfl, rfl⟩

/-- Nothing happens. -/
theorem Remembers.unchanged (h : Remembers past s) :
    (pure s : SettingsCall SettingsState).Extends Remembers KeptAlong past := by
  refine ⟨.nil, fun t ht => ?_⟩
  cases ht
  rwa [Exec.log_pure, List.append_nil]

/-- A property page that shows the settings. -/
theorem ShownOn.valid (h : L.ShownOn page) (hL : L.Valid) : ValidOn page :=
  ⟨h.keepPassword ▸ hL.keepPassword, h.autoRun ▸ hL.autoRun, h.autoConnect ▸ hL.autoConnect,
    h.disconnectOnIdle ▸ hL.disconnectOnIdle⟩

/-- What a function does that stores settings under their names. -/
def storing (L : Settings) (xs : List Setting) (r : Profile) : ProfileCall Profile :=
  ⟨xs.map fun x => .stored x.sect x.entry (L.value x), .ok (r.puts L xs)⟩

/-- The boxes of the login dialog. -/
def boxes : List Setting := [.keepPassword, .autoRun, .autoConnect, .dhcpEnable]

/-- Before the properties dialog the boxes are stored. -/
theorem onProperties_eq (h : L.ShownIn form) (hdhcp : form.dhcpEnable = form.autoConnect) :
    form.onProperties r = L.storing boxes r := by
  have hsame : form.autoConnect = L.dhcpEnable := hdhcp ▸ h.dhcpEnable
  simp only [storing, boxes, Profile.puts, List.map, List.foldl, value, ← h.keepPassword,
    ← h.autoRun, ← h.autoConnect, ← hsame]
  rfl

/-- `OnApply` stores what the property page shows. -/
theorem onApply_eq (L : Settings) (page : RunningForm) (r : Profile) :
    page.onApply r = (L.apply page).storing
      [.keepPassword, .autoRun, .autoConnect, .disconnectOnIdle, .idleTimeout] r := rfl

/-- The password is stored if it is to be kept, and the settings are left alone. -/
theorem savePassword_spec (L : Settings) (form : LoginForm) (r : Profile) :
    (∃ r', (form.savePassword r).result = .ok r' ∧ (∀ x, r'.reads x = r.reads x) ∧
      (form.keepPassword ≠ 0 → ∃ bytes, r'.getBinary "Main" "Password" = some bytes)) ∧
    ∀ e ∈ (form.savePassword r).log, L.Kept (.profile e) := by
  by_cases hkeep : form.keepPassword = 0
  · have hsave : form.savePassword r = pure r := if_neg (not_not.mpr hkeep)
    rw [hsave]
    exact ⟨⟨r, rfl, fun _ => rfl, fun h => absurd hkeep h⟩, by simp⟩
  · have hsave : form.savePassword r = r.writeEncrypt "Main" "Password" form.password := if_pos hkeep
    rw [hsave]
    refine ⟨⟨_, Profile.writeEncrypt_result .., fun x =>
      Profile.reads_set_of_ne x.entry_ne_password, fun _ => ⟨_, Profile.getBinary_set⟩⟩, fun e he => ?_⟩
    rcases Profile.mem_writeEncrypt_log he with ⟨n, -, rfl⟩ | ⟨i, -, rfl⟩ | ⟨v, rfl⟩
    · trivial
    · trivial
    · exact Or.inr ⟨rfl, rfl⟩

/-- The boxes are stored as they are before the properties dialog. -/
theorem onDestroy_eq (form : LoginForm) (r : Profile) :
    form.onDestroy r = r.writeString "Main" "UserName" form.userName >>= fun r =>
      form.savePassword r >>= form.onProperties := rfl

/-- As the program exits the user name, the boxes and with its box the password are stored. -/
theorem onDestroy_spec (h : L.ShownIn form) (hdhcp : form.dhcpEnable = form.autoConnect) :
    (∃ r', (form.onDestroy r).result = .ok r' ∧
      (∀ x, x ∈ .userName :: boxes ∨ r.reads x = L.value x → r'.reads x = L.value x) ∧
      (L.keepPassword ≠ 0 → ∃ bytes, r'.getBinary "Main" "Password" = some bytes)) ∧
    ∀ e ∈ (form.onDestroy r).log, L.Kept (.profile e) := by
  have hname : r.writeString "Main" "UserName" form.userName = L.storing [.userName] r := by
    rw [h.userName]
    rfl
  obtain ⟨⟨r', hr', hreads, hpassword⟩, hlog⟩ := savePassword_spec L form (r.puts L [.userName])
  have hresult : (L.storing [.userName] r).result = .ok (r.puts L [.userName]) := rfl
  rw [onDestroy_eq, hname, Exec.result_bind_of_ok hresult, Exec.log_bind_of_ok hresult,
    Exec.result_bind_of_ok hr', Exec.log_bind_of_ok hr', onProperties_eq h hdhcp]
  refine ⟨⟨r'.puts L boxes, rfl, fun x hx => Profile.reads_puts ?_, fun hkeep => ?_⟩, fun e he => ?_⟩
  · rw [hreads]
    rcases hx with hmem | hr
    · rcases List.mem_cons.mp hmem with hx | hbox
      · exact Or.inr (Profile.reads_puts (Or.inl (List.mem_singleton.mpr hx)))
      · exact Or.inl hbox
    · exact Or.inr (Profile.reads_puts (Or.inr hr))
  · rw [Profile.getBinary, Profile.puts_password]
    exact hpassword (h.keepPassword ▸ hkeep)
  · rcases List.mem_append.mp he with hfirst | hrest
    · exact kept_puts hfirst
    · rcases List.mem_append.mp hrest with hsaved | hboxes
      · exact hlog e hsaved
      · exact kept_puts hboxes

/-- A form with values that the boxes can have is shown as it is. -/
theorem ShownIn.toControls (h : L.ShownIn form) (hL : L.Valid) : L.ShownIn form.toControls where
  userName := h.userName
  keepPassword := by
    rw [← ddxCheck_of_checked hL.keepPassword, ← h.keepPassword]
    rfl
  autoRun := by
    rw [← ddxCheck_of_checked hL.autoRun, ← h.autoRun]
    rfl
  autoConnect := by
    rw [← ddxCheck_of_checked hL.autoConnect, ← h.autoConnect]
    rfl
  dhcpEnable := by
    rw [← ddxCheck_of_checked hL.dhcpEnable, ← h.dhcpEnable]
    rfl

/-- As the program starts the password is loaded, and nothing is stored. -/
theorem loadPassword_spec {n : ℤ} (L : Settings)
    (h : n ≠ 0 → ∃ bytes, r.getBinary "Main" "Password" = some bytes) :
    (∃ password, (LoginForm.loadPassword n r).result = .ok password) ∧
      ∀ e ∈ (LoginForm.loadPassword n r).log, L.Kept (.profile e) := by
  by_cases hkeep : n = 0
  · have hload : LoginForm.loadPassword n r = pure [] := if_neg (not_not.mpr hkeep)
    rw [hload]
    exact ⟨⟨[], rfl⟩, by simp⟩
  · have hload : LoginForm.loadPassword n r = r.getEncrypt "Main" "Password" [] := if_pos hkeep
    obtain ⟨bytes, hbytes⟩ := h hkeep
    rw [hload, Profile.getEncrypt_of_stored hbytes]
    refine ⟨⟨_, rfl⟩, fun e he => ?_⟩
    obtain ⟨i, -, rfl⟩ := List.mem_map.mp he
    trivial

/-- As the program starts the dialog takes the settings from the registry. -/
theorem onInitDialog_spec (h : L.Agrees r .none) :
    (∃ form, (LoginForm.onInitDialog r).result = .ok form ∧ L.ShownIn form) ∧
      ∀ e ∈ (LoginForm.onInitDialog r).log, L.Kept (.profile e) := by
  obtain ⟨hreads, hpassword⟩ := h
  have hkeep : r.getInt "Running" "KeepPassword" 0 = L.keepPassword :=
    ProfileValue.int.inj (hreads .keepPassword)
  obtain ⟨⟨password, hload⟩, hlog⟩ := loadPassword_spec L (n := L.keepPassword) hpassword
  rw [LoginForm.onInitDialog, hkeep, Exec.result_bind_of_ok hload, Exec.log_bind_of_ok hload]
  refine ⟨⟨_, rfl, ?_⟩, fun e he => hlog e (by simpa using he)⟩
  exact ⟨ProfileValue.string.inj (hreads .userName), rfl, ProfileValue.int.inj (hreads .autoRun),
    ProfileValue.int.inj (hreads .autoConnect), ProfileValue.int.inj (hreads .dhcpEnable)⟩

/-- The property page comes up with the settings in the registry. -/
theorem pageShown_of_reads (hL : L.Valid)
    (h : ∀ x, x ≠ .userName ∧ x ≠ .dhcpEnable → r.reads x = L.value x) :
    L.ShownOn (RunningForm.onInitDialog r).toControls := by
  constructor
  · exact (congrArg ddxCheck (ProfileValue.int.inj (h .keepPassword (by decide)))).trans
      (ddxCheck_of_checked hL.keepPassword)
  · exact (congrArg ddxCheck (ProfileValue.int.inj (h .autoRun (by decide)))).trans
      (ddxCheck_of_checked hL.autoRun)
  · exact (congrArg ddxCheck (ProfileValue.int.inj (h .autoConnect (by decide)))).trans
      (ddxCheck_of_checked hL.autoConnect)
  · exact (congrArg ddxRadio (ProfileValue.int.inj (h .disconnectOnIdle (by decide)))).trans
      (ddxRadio_of_checked hL.disconnectOnIdle)
  · exact ProfileValue.int.inj (h .idleTimeout (by decide))

/-- The settings are written or read, and one thing more happens that sets none of them. -/
theorem extends_profile {α : Type} {x : ProfileCall α} {v : α} (ev : α → SettingsEvent)
    (next : α → SettingsState) (hx : x.result = .ok v) (hL : (lastSet past).Valid)
    (hlog : ∀ e ∈ x.log, (lastSet past).Kept (.profile e)) (hev : (lastSet past).Kept (ev v))
    (hset : (lastSet past).after (ev v) = lastSet past)
    (hnext : (lastSet past).Agrees (next v).profile (next v).dialogs) :
    (onProfile x >>= fun v => Exec.tell (ev v) >>= fun _ => pure (next v)).Extends
      Remembers KeptAlong past := by
  have hres : (onProfile x).result = .ok v := hx
  have hlog' : (onProfile x >>= fun v => Exec.tell (ev v) >>= fun _ => pure (next v)).log =
      x.log.map .profile ++ [ev v] := by
    rw [Exec.log_bind_of_ok hres]
    rfl
  have hsame : lastSet (past ++ (x.log.map .profile ++ [ev v])) = lastSet past := by
    rw [← List.append_assoc, lastSet_concat, lastSet_profile, hset]
  constructor
  · rw [hlog', along_profile_concat]
    exact ⟨hlog, hev⟩
  · intro t ht
    rw [Exec.result_bind_of_ok hres] at ht
    cases ht
    rw [hlog']
    exact ⟨hsame.symm ▸ hL, hsame.symm ▸ hnext⟩

/-- The program is not running. -/
theorem stepNone_extends (h : Remembers past ⟨r, .none⟩) :
    (stepNone r a).Extends Remembers KeptAlong past := by
  cases a with
  | start =>
    obtain ⟨⟨form, hform, hshown⟩, hlog⟩ := onInitDialog_spec h.agrees
    have hcontrols := hshown.toControls h.valid
    exact extends_profile (fun form : LoginForm => .shown form.toControls)
      (fun form => ⟨r, .login form.toControls⟩) hform h.valid hlog hcontrols rfl
      ⟨hcontrols, fun x _ => h.agrees.1 x⟩
  | _ => exact h.unchanged

/-- A control of the login dialog is changed. -/
theorem ShownIn.edit (h : L.ShownIn form) (e : LoginEdit) : (L.edit e).ShownIn (form.edit e) := by
  obtain ⟨h1, h2, h3, h4, h5⟩ := h
  cases e <;> constructor <;> first | rfl | assumption

/-- Editing the login keeps the settings valid. -/
theorem Valid.edit (h : L.Valid) (e : LoginEdit) : (L.edit e).Valid := by
  obtain ⟨h1, h2, h3, h4, h5⟩ := h
  cases e <;> constructor <;> first | exact checked_checkValue _ | assumption

/-- The login dialog has no control for the two settings of the idle time. -/
private theorem value_edit {x : Setting} (h : x = .disconnectOnIdle ∨ x = .idleTimeout)
    (e : LoginEdit) :
    (L.edit e).value x = L.value x := by
  rcases h with rfl | rfl <;> cases e <;> rfl

/-- The login dialog is open. -/
theorem stepLogin_extends (h : Remembers past ⟨r, .login form⟩)
    (hok : DhcpFollows past ⟨r, .login form⟩ a) :
    (stepLogin r form a).Extends Remembers KeptAlong past := by
  obtain ⟨hL, hshown, hidle⟩ := h
  cases a with
  | edit e =>
    refine .tell trivial (Remembers.unchanged ⟨?_, ?_⟩)
    · rw [lastSet_concat]
      exact hL.edit e
    · rw [lastSet_concat]
      exact ⟨hshown.edit e, fun x hx => (hidle x hx).trans (value_edit hx e).symm⟩
  | openProperties =>
    have hprops := onProperties_eq (r := r) hshown (hok (Or.inl rfl) form rfl)
    have hreads (x : Setting) (hx : x ≠ .userName ∧ x ≠ .dhcpEnable) :
        (r.puts (lastSet past) boxes).reads x = (lastSet past).value x := by
      refine Profile.reads_puts ?_
      cases x with
      | userName => exact absurd rfl hx.1
      | dhcpEnable => exact absurd rfl hx.2
      | disconnectOnIdle => exact Or.inr (hidle _ (Or.inl rfl))
      | idleTimeout => exact Or.inr (hidle _ (Or.inr rfl))
      | _ => exact Or.inl (by decide)
    have hpage := pageShown_of_reads hL hreads
    refine extends_profile (fun r => .pageShown (RunningForm.onInitDialog r).toControls)
      (fun r => ⟨r, .properties form (RunningForm.onInitDialog r).toControls⟩)
      (congrArg Exec.result hprops) hL (fun e he => ?_) hpage rfl
      ⟨hshown.userName, hshown.dhcpEnable, hpage.valid hL, hreads⟩
    rw [hprops] at he
    exact kept_puts he
  | exit =>
    obtain ⟨⟨r', hr', hreads, hpassword⟩, hlog⟩ :=
      onDestroy_spec (r := r) hshown (hok (Or.inr rfl) form rfl)
    refine extends_profile (fun _ => .autoRunSet (form.autoRun ≠ 0)) (fun r => ⟨r, .none⟩) hr' hL hlog
      ?_ rfl ⟨fun x => hreads x ?_, hpassword⟩
    · rw [Kept, hshown.autoRun]
      exact decide_eq_true_iff
    · cases x with
      | disconnectOnIdle => exact Or.inr (hidle _ (Or.inl rfl))
      | idleTimeout => exact Or.inr (hidle _ (Or.inr rfl))
      | _ => exact Or.inl (by decide)
  | _ => exact Remembers.unchanged ⟨hL, hshown, hidle⟩

/-- A control of the property page is changed. -/
theorem ValidOn.edit (h : ValidOn page) (e : RunningEdit) : ValidOn (page.edit e) := by
  obtain ⟨h1, h2, h3, h4⟩ := h
  cases e <;> constructor <;> first | exact checked_checkValue _ | assumption

/-- Applying a page keeps the settings valid. -/
theorem Valid.apply (h : L.Valid) (hpage : ValidOn page) : (L.apply page).Valid :=
  ⟨hpage.keepPassword, hpage.autoRun, hpage.autoConnect, h.dhcpEnable, hpage.disconnectOnIdle⟩

/-- The properties dialog is open. -/
theorem stepProperties_extends (h : Remembers past ⟨r, .properties form page⟩) :
    (stepProperties r form page a).Extends Remembers KeptAlong past := by
  obtain ⟨hL, hname, hdhcp, hpage, hreads⟩ := h
  cases a with
  | editPage e => exact Remembers.unchanged ⟨hL, hname, hdhcp, hpage.edit e, hreads⟩
  | apply =>
    refine .tell trivial ?_
    have hset : lastSet (past ++ [.applied page]) = (lastSet past).apply page := lastSet_concat ..
    refine extends_profile (fun _ => .autoRunSet (page.autoRun ≠ 0))
      (fun r => ⟨r, .properties form page⟩) (congrArg Exec.result (onApply_eq (lastSet past) page r))
      (hset ▸ hL.apply hpage) (fun e he => ?_) ?_ rfl ?_
    · rw [onApply_eq (lastSet past)] at he
      rw [hset]
      exact kept_puts he
    · rw [hset]
      exact decide_eq_true_iff
    · rw [hset]
      refine ⟨hname, hdhcp, hpage, fun x hx => Profile.reads_puts (Or.inl ?_)⟩
      cases x with
      | userName => exact absurd rfl hx.1
      | dhcpEnable => exact absurd rfl hx.2
      | _ => decide
  | closeProperties =>
    have hshown : (lastSet past).ShownIn (form.reload r) :=
      ⟨hname, ProfileValue.int.inj (hreads .keepPassword (by decide)),
        ProfileValue.int.inj (hreads .autoRun (by decide)),
        ProfileValue.int.inj (hreads .autoConnect (by decide)), hdhcp⟩
    refine Remembers.unchanged ⟨hL, hshown.toControls hL, fun x hx => hreads x ?_⟩
    rcases hx with rfl | rfl <;> decide
  | _ => exact Remembers.unchanged ⟨hL, hname, hdhcp, hpage, hreads⟩

/-- A step at which the login dialog does not mix up its boxes keeps the settings. -/
theorem step_extends (h : Remembers past s) (hok : DhcpFollows past s a) :
    (step s a).Extends Remembers KeptAlong past := by
  obtain ⟨r, dialogs⟩ := s
  cases dialogs with
  | none => exact stepNone_extends h
  | login form => exact stepLogin_extends h hok
  | properties form page => exact stepProperties_extends h

/-- The login dialog writes its box for connecting automatically to the entry of the box for DHCP. -/
theorem onProperties_dhcp (form : LoginForm) (r : Profile) :
    .stored "Running" "DhcpEnable" (.int form.autoConnect) ∈ (form.onProperties r).log := by
  have hlog : (form.onProperties r).log = [.stored "Running" "KeepPassword" (.int form.keepPassword),
      .stored "Running" "AutoRun" (.int form.autoRun),
      .stored "Running" "AutoConnect" (.int form.autoConnect),
      .stored "Running" "DhcpEnable" (.int form.autoConnect)] := rfl
  rw [hlog]
  exact List.mem_of_getElem? (i := 3) rfl

/-- It does so as well when the program exits, whatever it shows. -/
theorem onDestroy_dhcp (form : LoginForm) (r : Profile) :
    (∃ r', (form.onDestroy r).result = .ok r') ∧
      .stored "Running" "DhcpEnable" (.int form.autoConnect) ∈ (form.onDestroy r).log := by
  obtain ⟨⟨r', hr', -⟩, -⟩ :=
    savePassword_spec initial form (r.set "Main" "UserName" (.string form.userName))
  rw [onDestroy_eq]
  constructor
  · rw [Exec.result_bind_of_ok rfl, Exec.result_bind_of_ok hr']
    exact ⟨_, rfl⟩
  · exact Exec.mem_log_bind_right rfl (Exec.mem_log_bind_right hr' (onProperties_dhcp form r'))

/-- Every step returns. -/
theorem step_returns (h : Remembers past s) (a : SettingsAction) :
    ∃ t, (step s a).result = .ok t := by
  obtain ⟨r, dialogs⟩ := s
  cases dialogs with
  | none =>
    cases a with
    | start =>
      obtain ⟨⟨form, hform, -⟩, -⟩ := onInitDialog_spec h.agrees
      have hres : (onProfile (LoginForm.onInitDialog r)).result = .ok form := hform
      exact ⟨_, Exec.result_bind_of_ok hres⟩
    | _ => exact ⟨_, rfl⟩
  | login form =>
    cases a with
    | exit =>
      obtain ⟨⟨r', hr'⟩, -⟩ := onDestroy_dhcp form r
      have hres : (onProfile (form.onDestroy r)).result = .ok r' := hr'
      exact ⟨_, Exec.result_bind_of_ok hres⟩
    | _ => exact ⟨_, rfl⟩
  | properties form page => cases a <;> exact ⟨_, rfl⟩

/-- What is written to the registry first is a part of what happens. -/
theorem kept_of_along {α : Type} {x : ProfileCall α} {f : α → SettingsCall SettingsState}
    {e : ProfileEvent} (h : Along KeptAlong past (onProfile x >>= f).log) (he : e ∈ x.log) :
    (lastSet past).Kept (.profile e) := by
  have hfirst : x.log.map .profile <+: (onProfile x >>= f).log := by
    cases hx : (onProfile x).result with
    | ok v =>
      rw [Exec.log_bind_of_ok hx]
      exact List.prefix_append ..
    | error fault =>
      rw [Exec.log_bind_of_error hx]
      exact List.prefix_rfl
  exact along_profile.mp (h.of_prefix hfirst) e he

/-- What is stored as the box for DHCP is the value of that box. -/
theorem Kept.dhcp {n : ℤ} (h : L.Kept (.profile (.stored "Running" "DhcpEnable" (.int n)))) :
    L.dhcpEnable = n := by
  rcases h with ⟨x, -, hentry, hvalue⟩ | ⟨hsect, -⟩
  · obtain rfl : x = .dhcpEnable := Setting.entry_injective hentry
    exact ProfileValue.int.inj hvalue
  · exact absurd hsect (by decide)

/-- A step that keeps the settings does not mix up the boxes. -/
private theorem dhcpFollows_of_along (h : Remembers past s)
    (halong : Along KeptAlong past (step s a).log) :
    DhcpFollows past s a := by
  intro ha form hdialogs
  obtain ⟨r, dialogs⟩ := s
  cases hdialogs
  rw [h.agrees.1.dhcpEnable]
  rcases ha with rfl | rfl
  · exact (kept_of_along halong (onProperties_dhcp form r)).dhcp
  · exact (kept_of_along halong (onDestroy_dhcp form r).2).dhcp

/-- Nothing was ever set. -/
private theorem remembers_fresh : Remembers [] fresh where
  valid := ⟨Or.inl rfl, Or.inl rfl, Or.inl rfl, Or.inl rfl, Or.inl rfl⟩
  agrees := ⟨fun x => by cases x <;> rfl, fun h => absurd rfl h⟩

/-- Edits, visits to the properties dialog with any changes, exits and restarts in any order: what is
shown is what was set last and no setting is stored in the place of another exactly in the runs in
which the box for DHCP stands as the one for connecting automatically whenever the login dialog writes
its boxes. -/
theorem settings_kept_iff (actions : List SettingsAction) :
    (Along KeptAlong [] (actions.foldlM step fresh).log ↔
        Exec.Meets step DhcpFollows [] fresh actions) ∧
      (Exec.Meets step DhcpFollows [] fresh actions →
        ∃ s, (actions.foldlM step fresh).result = .ok s) :=
  ⟨Exec.Extends.along_iff (fun _ _ _ => step_extends) (fun _ _ _ => dhcpFollows_of_along)
      remembers_fresh,
    Exec.Extends.returns (fun _ _ _ => step_extends) (fun _ _ _ h => step_returns h _)
      remembers_fresh⟩

/-- The user checks both boxes, keeps the password and changes the time in the properties dialog. -/
def bothBoxes : List SettingsAction :=
  [.start, .edit (.userName [97]), .edit (.password [98]), .edit (.autoConnect true),
    .edit (.dhcpEnable true), .openProperties, .editPage (.keepPassword true),
    .editPage (.idleTimeout 5), .apply, .closeProperties, .exit, .start]

/-- All of it is there after the restart. -/
theorem settings_kept_bothBoxes :
    Along KeptAlong [] (bothBoxes.foldlM step fresh).log ∧
      (bothBoxes.foldlM step fresh).log.getLast? = some (.shown ⟨[97], [98], 1, 0, 1, 1⟩) := by
  refine ⟨(settings_kept_iff bothBoxes).1.mpr (Exec.Meets.of_take fun i a ha s hs hwrites form hform =>
    ?_), by decide⟩
  have hwriting : ∀ j < 12, bothBoxes[j]? = some .openProperties ∨ bothBoxes[j]? = some .exit →
      j = 5 ∨ j = 10 := by decide
  have hfound : bothBoxes[i]? = some .openProperties ∨ bothBoxes[i]? = some .exit :=
    hwrites.imp (fun hwrite => ha.trans (congrArg some hwrite))
      fun hwrite => ha.trans (congrArg some hwrite)
  rcases hwriting i (List.getElem?_eq_some_iff.mp ha).1 hfound with rfl | rfl
  · cases hs
    cases hform
    rfl
  · cases hs
    cases hform
    rfl

/-- The box for DHCP is checked before the program exits. -/
def dhcpChecked : List SettingsAction := [.start, .edit (.dhcpEnable true), .exit, .start]

/-- After the restart it is not checked. -/
theorem dhcp_forgotten : ¬Along KeptAlong [] (dhcpChecked.foldlM step fresh).log := by
  intro h
  have hlast : (dhcpChecked.foldlM step fresh).log[8]? = some (.shown ⟨[], [], 0, 0, 0, 0⟩) := by
    decide
  have hset : (lastSet ([] ++ (dhcpChecked.foldlM step fresh).log.take 8)).dhcpEnable = 1 := by
    decide
  have hshown : 0 = (lastSet ([] ++ (dhcpChecked.foldlM step fresh).log.take 8)).dhcpEnable :=
    (h.getElem? hlast).dhcpEnable
  rw [hset] at hshown
  exact absurd hshown (by decide)

end Settings

end Dot1x.Client
