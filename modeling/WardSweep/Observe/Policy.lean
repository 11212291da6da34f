import WardSweep.Observe.Model

/-!
# What the harness refuses to keep

Three reasons to refuse: hardware identity, personal identity and activity history.  Keys and paths
are refused with everything below them, by fragments of their lower-cased spelling; single values by
their name and data.  The lists are constants of the program.  Here they are the fields of a policy,
so that a policy that refuses nothing is one as well.
-/

namespace WardSweep.Observe

open Utf8 Str

/-! ## The lists -/

/-- The terms that mark hardware identity, lower-cased: the data file of the source. -/
def hardwareIdentityTerms : List Text :=
  ["machineguid", "smbios", "serialnumber", "diskserial", "volumeserial", "macaddress",
   "baseboard", "processorid", "computersystemproduct", "biosuuid", "systemuuid", "dhcpv6duid",
   "defaultgatewaymac", "dhcpinterfaceoptions", "dhcpgatewayhardware",
   "volume\x7b"].map String.toList

/-- Value names whose data says who the machine or its user is. -/
def personalIdentityValueNames : List Text :=
  ["hostname", "nv hostname", "computername", "registeredowner", "registeredorganization",
   "useremail", "autologinuser", "activeuser", "lastgamenameused"].map String.toList

/-- Key path fragments that stop the registry walk. -/
def excludedKeyFragments : List Text :=
  [r"\microsoft\cryptography\", r"\enum\", r"\services\tpm\", r"\services\bthport\parameters\",
   r"\explorer\mountpoints2\", r"\networklist\signatures\", r"\microsoft\identitycrl\",
   r"\microsoft\onedrive\", r"\microsoft\office\common\userinfo\", r"\networklist\profiles\",
   r"\microsoft\identitystore\", r"\gryphline\sdk_data\",
   r"\appcompatflags\compatibility assistant\", r"\explorer\featureusage\",
   r"\explorer\userassist\", r"\explorer\typedpaths\", r"\explorer\runmru\",
   r"\explorer\wordwheelquery\", r"\explorer\recentdocs\", r"\explorer\comdlg32\",
   r"\explorer\sessioninfo\", r"\search\jumplistdata\", r"\shell\bagmru\", r"\shell\bags\",
   r"\shell\muicache\", r"\services\bam\state\", r"\services\dam\state\",
   r"\capabilityaccessmanager\consentstore\", r"\currentversion\notifications\settings\",
   r"\notifications\quiethours\", r"\directinput\mostrecentapplication\",
   r"\currentversion\applistbackup\", r"\currentversion\ufh\shc\", r"\local settings\muicache\",
   r"\local settings\mrtcache\", r"\persistedstorageitemtable\", r"\persistedpickerdata\",
   r"\microsoft\gamingservices\", r"\ham\", r"\hostactivitymanager\",
   r"\currentversion\cloudstore\", r"\diagnostics\diagtrack\", r"\visualstudio\telemetry\",
   r"\hkcu\software\valve\steam\apps\", r"\microsoft\authcookies\", r"\preferencemacs\",
   r"\currentversion\softwareprotectionplatform\",
   r"\microsoft\windows\currentversion\component based servicing\", r"\classes\clsid\",
   r"\classes\interface\", r"\classes\typelib\", r"\classes\wow6432node\clsid\",
   r"\classes\wow6432node\interface\", r"\installer\"].map String.toList

/-- Path fragments that stop the filesystem walk. -/
def excludedPathFragments : List Text :=
  [r"\windows defender\platform\", r"\softwaredistribution\", r"\windows\servicing\",
   r"\windows\winsxs\", r"\windows\assembly\", r"\appdata\local\temp\", r"\windows\temp\",
   r"\inetcache\", r"\webcache\", r"\crashdumps\", r"\usoshared\logs\", r"\d3dscache\",
   r"\dxcache\", r"\nv_cache\", r"\gluecache\", r"\shadercache\", r"\google\chrome\user data\",
   r"\microsoft\edge\user data\", r"\mozilla\firefox\profiles\", r"\bravesoftware\",
   r"\appdata\local\steam\htmlcache\", r"\npm-cache\", r"\node_modules\", r"\.cargo\registry\",
   r"\pip\cache\", r"\nuget\packages\", r"\appdata\local\packages\",
   r"\appdata\local\wardsweep\observations\", r"\microsoft\crypto\", r"\microsoft\protect\",
   r"\appdata\local\connecteddevicesplatform\", r"\microsoft\windows\recent\",
   r"\microsoft\windows\wer\", r"\appdata\local\microsoft\oneauth\",
   r"\appdata\local\microsoft\tokenbroker\", r"\appdata\local\microsoft\credentials\",
   r"\appdata\roaming\microsoft\credentials\", r"\appdata\local\microsoft\identitycache\",
   r"\appdata\local\microsoft\onedrive\", r"\google\drivefs\", r"\steam\userdata\",
   r"\steam\appcache\", r"\steam\depotcache\", r"\origin\avatarscache\",
   r"\appdata\roaming\claude\", r"\appdata\local\claude\", r"\programdata\claude\",
   r"\appdata\local\claude-cli-nodejs\", r"\appdata\local\claude-data\",
   r"\appdata\roaming\code\user\", r"\protonmail\"].map String.toList

/-! ## The policy -/

structure Policy where
  terms : List Text
  personalNames : List Text
  keyFragments : List Text
  pathFragments : List Text
  deriving DecidableEq, Repr

/-- The policy compiled into this build. -/
def Policy.current : Policy where
  terms := hardwareIdentityTerms
  personalNames := personalIdentityValueNames
  keyFragments := excludedKeyFragments
  pathFragments := excludedPathFragments

/-- The policy that refuses nothing. -/
def Policy.lenient : Policy where
  terms := []
  personalNames := []
  keyFragments := []
  pathFragments := []

/-- Whether a key path falls inside an excluded fragment: `policy::is_excluded`. -/
def Policy.excludesKey (policy : Policy) (key : Text) : Bool :=
  policy.keyFragments.any (contains ('\\' :: toAsciiLowercase key ++ ['\\']))

/-- Whether a path falls inside an excluded fragment: `filesystem::is_excluded`. -/
def Policy.excludesPath (policy : Policy) (path : Text) : Bool :=
  policy.pathFragments.any (contains
    ((toAsciiLowercase path).map (fun c ↦ if c = '/' then '\\' else c) ++ ['\\']))

/-- Whether a value names or holds hardware identity. -/
def isHardwareIdentity (terms : List Text) (name data : Text) : Bool :=
  if terms.any (contains (toAsciiLowercase name)) then true
  else if "prop:".toList.isPrefixOf (toAsciiLowercase data) then false
  else terms.any (contains (toAsciiLowercase data))

/-- Whether a value's name marks it as personal identity. -/
def isPersonalIdentityValue (names : List Text) (name : Text) : Bool :=
  names.any fun known ↦ eqIgnoreAsciiCase known (trim name)

/-- Why a value was refused. -/
inductive Refusal where
  | hardwareIdentity
  | personalIdentity
  deriving DecidableEq, Repr

def Policy.refusal (policy : Policy) (name data : Text) : Option Refusal :=
  if isHardwareIdentity policy.terms name data then some .hardwareIdentity
  else if isPersonalIdentityValue policy.personalNames name then some .personalIdentity
  else none

def Policy.refuses (policy : Policy) (value : RegistryValue) : Bool :=
  (policy.refusal value.name value.data).isSome

/-! ## Admitting a record -/

/-- A record as it was, or a changed copy of it: `Cow`. -/
inductive Cow (α : Type) where
  | borrowed (value : α)
  | owned (value : α)
  deriving DecidableEq, Repr

def Cow.get {α : Type} : Cow α → α
  | .borrowed value => value
  | .owned value => value

def Cow.isBorrowed {α : Type} : Cow α → Bool
  | .borrowed _ => true
  | .owned _ => false

/-- What a policy made of one record. -/
structure Admitted where
  record : Option (Cow RegistryRecord)
  /-- The values dropped from a record that was kept. -/
  refusedValues : ℕ
  deriving DecidableEq, Repr

/-- A record as this policy would have captured it. -/
def Policy.admit (policy : Policy) (record : RegistryRecord) : Admitted :=
  if policy.excludesKey record.key then ⟨none, 0⟩
  else if record.values.countP policy.refuses = 0 then
    ⟨some (.borrowed record), record.values.countP policy.refuses⟩
  else if record.values.filter (fun value ↦ !policy.refuses value) = [] then ⟨none, 0⟩
  else
    ⟨some (.owned { record with values := record.values.filter fun value ↦ !policy.refuses value }),
      record.values.countP policy.refuses⟩

/-- A record as the policy allows it, if anything of it is allowed. -/
def Policy.admitted (policy : Policy) (record : RegistryRecord) : Option RegistryRecord :=
  policy.admit record |>.record.map Cow.get

/-- The key part of a denied registry item, `KEY [view N]` or `KEY :: VALUE [view N]`. -/
def deniedKey (item : Text) : Text :=
  let withoutView := (rsplitOnce item " [view ".toList).elim item Prod.fst
  (splitOnce withoutView " :: ".toList).elim withoutView Prod.fst

/-- Whether a denied registry item names an excluded key. -/
def Policy.excludesDeniedItem (policy : Policy) (item : Text) : Bool :=
  policy.excludesKey (deniedKey item)

/-! ## Case -/

@[simp] theorem excludesPath_toAsciiLowercase (policy : Policy) (path : Text) :
    policy.excludesPath (toAsciiLowercase path) = policy.excludesPath path := by
  rw [Policy.excludesPath, toAsciiLowercase_idem, Policy.excludesPath]

@[simp] theorem excludesKey_toAsciiLowercase (policy : Policy) (key : Text) :
    policy.excludesKey (toAsciiLowercase key) = policy.excludesKey key := by
  rw [Policy.excludesKey, toAsciiLowercase_idem, Policy.excludesKey]

/-- Two spellings of one path are excluded together. -/
theorem excludesPath_congr (policy : Policy) {left right : Text}
    (h : toAsciiLowercase left = toAsciiLowercase right) :
    policy.excludesPath left = policy.excludesPath right := by
  rw [← excludesPath_toAsciiLowercase, h, excludesPath_toAsciiLowercase]

theorem excludesKey_congr (policy : Policy) {left right : Text}
    (h : toAsciiLowercase left = toAsciiLowercase right) :
    policy.excludesKey left = policy.excludesKey right := by
  rw [← excludesKey_toAsciiLowercase, h, excludesKey_toAsciiLowercase]

/-! ## What is too short to be refused -/

theorem lt_length_pathFragment : ∀ fragment ∈ excludedPathFragments, 8 < fragment.length := by
  simp only [excludedPathFragments, List.map_cons, List.map_nil, List.forall_mem_cons]
  repeat' apply And.intro
  case right => exact List.forall_mem_nil _
  all_goals exact lt_length_toList rfl (by decide)

theorem lt_length_keyFragment : ∀ fragment ∈ excludedKeyFragments, 4 < fragment.length := by
  simp only [excludedKeyFragments, List.map_cons, List.map_nil, List.forall_mem_cons]
  repeat' apply And.intro
  case right => exact List.forall_mem_nil _
  all_goals exact lt_length_toList rfl (by decide)

theorem lt_length_identityTerm : ∀ term ∈ hardwareIdentityTerms, 5 < term.length := by
  simp only [hardwareIdentityTerms, List.map_cons, List.map_nil, List.forall_mem_cons]
  repeat' apply And.intro
  case right => exact List.forall_mem_nil _
  all_goals exact lt_length_toList rfl (by decide)

theorem excludesPath_of_short {path : Text} (h : path.length ≤ 7) :
    Policy.current.excludesPath path = false := by
  rw [Policy.excludesPath, List.any_eq_false]
  intro fragment hfragment
  have hlong := lt_length_pathFragment fragment hfragment
  rw [Bool.not_eq_true]
  apply contains_eq_false_of_length_lt
  simp only [List.length_append, List.length_map, toAsciiLowercase, List.length_singleton]
  omega

theorem excludesKey_of_short {key : Text} (h : key.length ≤ 2) :
    Policy.current.excludesKey key = false := by
  rw [Policy.excludesKey, List.any_eq_false]
  intro fragment hfragment
  have hlong := lt_length_keyFragment fragment hfragment
  rw [Bool.not_eq_true]
  apply contains_eq_false_of_length_lt
  simp only [List.length_append, List.length_cons, List.length_map, toAsciiLowercase,
    List.length_nil]
  omega

theorem isHardwareIdentity_of_short {name data : Text} (hname : name.length ≤ 5)
    (hdata : data.length ≤ 5) : isHardwareIdentity hardwareIdentityTerms name data = false := by
  have hshort : ∀ text : Text, text.length ≤ 5 →
      hardwareIdentityTerms.any (contains (toAsciiLowercase text)) = false := by
    intro text htext
    rw [List.any_eq_false]
    intro term hterm
    have hlong := lt_length_identityTerm term hterm
    rw [Bool.not_eq_true]
    apply contains_eq_false_of_length_lt
    rw [toAsciiLowercase, List.length_map]
    omega
  rw [isHardwareIdentity, hshort name hname, hshort data hdata]
  simp

theorem lt_length_personalName : ∀ name ∈ personalIdentityValueNames, 7 < name.length := by
  simp only [personalIdentityValueNames, List.map_cons, List.map_nil, List.forall_mem_cons]
  repeat' apply And.intro
  case right => exact List.forall_mem_nil _
  all_goals exact lt_length_toList rfl (by decide)

theorem isPersonalIdentityValue_of_short {name : Text} (h : name.length ≤ 7) :
    isPersonalIdentityValue personalIdentityValueNames name = false := by
  rw [isPersonalIdentityValue, List.any_eq_false]
  intro known hknown hsame
  have hlong := lt_length_personalName known hknown
  have hlength : known.length = (trim name).length := by
    simpa using congrArg List.length ((eqIgnoreAsciiCase_iff _ _).mp hsame)
  obtain ⟨left, right, htrim, -⟩ := exists_trimMatches isWhitespace name
  have hwhole := congrArg List.length htrim
  rw [List.length_append, List.length_append] at hwhole
  rw [trim] at hlength
  omega

/-! ## What admitting does -/

/-- A record without the values the policy refuses. -/
def Policy.trimmed (policy : Policy) (record : RegistryRecord) : RegistryRecord :=
  { record with values := record.values.filter fun value ↦ !policy.refuses value }

/-- Nothing of a record is allowed: its key is excluded, or it has values and all are refused. -/
def Policy.Drops (policy : Policy) (record : RegistryRecord) : Prop :=
  policy.excludesKey record.key ∨
    (record.values ≠ [] ∧ ∀ value ∈ record.values, policy.refuses value)

instance (policy : Policy) (record : RegistryRecord) : Decidable (policy.Drops record) := by
  unfold Policy.Drops
  infer_instance

theorem trimmed_eq_self_iff (policy : Policy) (record : RegistryRecord) :
    policy.trimmed record = record ↔ ∀ value ∈ record.values, policy.refuses value = false := by
  cases record with
  | mk key view values => simp [Policy.trimmed]

@[simp] theorem trimmed_key (policy : Policy) (record : RegistryRecord) :
    (policy.trimmed record).key = record.key := rfl

@[simp] theorem trimmed_view (policy : Policy) (record : RegistryRecord) :
    (policy.trimmed record).view = record.view := rfl

theorem not_refuses_of_mem_trimmed {policy : Policy} {record : RegistryRecord}
    {value : RegistryValue} (h : value ∈ (policy.trimmed record).values) :
    policy.refuses value = false := by
  simpa using (List.mem_filter.mp h).2

/-- What the policy makes of a record: nothing, or the record without its refused values. -/
theorem admitted_eq (policy : Policy) (record : RegistryRecord) :
    policy.admitted record =
      if policy.Drops record then none else some (policy.trimmed record) := by
  unfold Policy.admitted Policy.admit
  by_cases hkey : policy.excludesKey record.key
  · simp [hkey, Policy.Drops]
  · by_cases hcount : record.values.countP policy.refuses = 0
    · have hnone : ∀ value ∈ record.values, policy.refuses value = false := by
        simpa [List.countP_eq_zero] using hcount
      have hkeeps : ¬ policy.Drops record := by
        rintro (h | ⟨hne, hall⟩)
        · exact hkey h
        · obtain ⟨value, hvalue⟩ := List.exists_mem_of_ne_nil _ hne
          exact absurd (hall value hvalue) (by simp [hnone value hvalue])
      rw [if_neg hkey, if_pos hcount, if_neg hkeeps]
      exact congrArg some ((trimmed_eq_self_iff policy record).mpr hnone).symm
    · have hne : record.values ≠ [] := by
        intro hnil
        simp [hnil] at hcount
      rw [if_neg hkey, if_neg hcount]
      by_cases hall : ∀ value ∈ record.values, policy.refuses value
      · have hempty : (record.values.filter fun value ↦ !policy.refuses value) = [] := by
          simpa using hall
        have hdrops : policy.Drops record := Or.inr ⟨hne, hall⟩
        rw [if_pos hempty, if_pos hdrops]
        rfl
      · have hkept : (record.values.filter fun value ↦ !policy.refuses value) ≠ [] := by
          simpa using hall
        have hkeeps : ¬ policy.Drops record := by
          rintro (h | ⟨_, h⟩)
          · exact hkey h
          · exact hall h
        rw [if_neg hkept, if_neg hkeeps]
        rfl

theorem admitted_eq_some_iff {policy : Policy} {record result : RegistryRecord} :
    policy.admitted record = some result ↔
      ¬ policy.Drops record ∧ result = policy.trimmed record := by
  rw [admitted_eq]
  by_cases h : policy.Drops record
  · simp [h]
  · simp [h, eq_comm]

/-- A record the policy borrows is one it has nothing to say about. -/
theorem isBorrowed_iff_of_admit {policy : Policy} {record : RegistryRecord} {made : Admitted}
    (h : policy.admit record = made) :
    made.record.any Cow.isBorrowed ↔ policy.excludesKey record.key = false ∧
      ∀ value ∈ record.values, policy.refuses value = false := by
  rw [← h]
  unfold Policy.admit
  by_cases hkey : policy.excludesKey record.key
  · simp [hkey]
  · by_cases hcount : record.values.countP policy.refuses = 0
    · rw [if_neg hkey, if_pos hcount]
      simp [List.countP_eq_zero] at hcount
      simpa [hkey, Cow.isBorrowed] using hcount
    · have hrefused : ¬ ∀ value ∈ record.values, policy.refuses value = false := by
        simpa [List.countP_eq_zero] using hcount
      rw [if_neg hkey, if_neg hcount]
      split <;> simp [Cow.isBorrowed, hrefused]

end WardSweep.Observe
