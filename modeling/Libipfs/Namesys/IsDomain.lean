import Libipfs.Lib.CString

/-!
# Domain names

A domain is checked by its last label, which has to be one of a table of top level domains, and
by its characters.  A dot at the end is ignored.

* `tlds`, `extendedTlds`    the tables;
* `isdomainIsDomain`        whether a string is a domain;
* `safe_isdomainIsDomain`   it faults for the empty string only;
* `IsDomainName`            the grammar of a domain;
* `decidesDomain_iff`       **it is decided** for every string but the empty one.
-/

namespace Ipfs
open CSem

/-- the top level domains according to ICANN in 2014; the condition of each entry of the tables is 1 -/
def tldNames : List String :=
  ["AC", "ACADEMY", "ACCOUNTANTS", "ACTIVE", "ACTOR", "AD", "AE", "AERO", "AF", "AG", "AGENCY",
   "AI", "AIRFORCE", "AL", "ALLFINANZ", "AM", "AN", "AO", "AQ", "AR", "ARCHI", "ARMY", "ARPA", "AS",
   "ASIA", "ASSOCIATES", "AT", "ATTORNEY", "AU", "AUCTION", "AUDIO", "AUTOS", "AW", "AX", "AXA",
   "AZ", "BA", "BAR", "BARGAINS", "BAYERN", "BB", "BD", "BE", "BEER", "BERLIN", "BEST", "BF", "BG",
   "BH", "BI", "BID", "BIKE", "BIO", "BIZ", "BJ", "BLACK", "BLACKFRIDAY", "BLUE", "BM", "BMW", "BN",
   "BNPPARIBAS", "BO", "BOO", "BOUTIQUE", "BR", "BRUSSELS", "BS", "BT", "BUDAPEST", "BUILD",
   "BUILDERS", "BUSINESS", "BUZZ", "BV", "BW", "BY", "BZ", "BZH", "CA", "CAB", "CAL", "CAMERA",
   "CAMP", "CANCERRESEARCH", "CAPETOWN", "CAPITAL", "CARAVAN", "CARDS", "CARE", "CAREER", "CAREERS",
   "CASA", "CASH", "CAT", "CATERING", "CC", "CD", "CENTER", "CEO", "CERN", "CF", "CG", "CH",
   "CHANNEL", "CHEAP", "CHRISTMAS", "CHROME", "CHURCH", "CI", "CITIC", "CITY", "CK", "CL", "CLAIMS",
   "CLEANING", "CLICK", "CLINIC", "CLOTHING", "CLUB", "CM", "CN", "CO", "CODES", "COFFEE",
   "COLLEGE", "COLOGNE", "COM", "COMMUNITY", "COMPANY", "COMPUTER", "CONDOS", "CONSTRUCTION",
   "CONSULTING", "CONTRACTORS", "COOKING", "COOL", "COOP", "COUNTRY", "CR", "CREDIT", "CREDITCARD",
   "CRUISES", "CU", "CUISINELLA", "CV", "CW", "CX", "CY", "CYMRU", "CZ", "DAD", "DANCE", "DATING",
   "DAY", "DE", "DEALS", "DEGREE", "DEMOCRAT", "DENTAL", "DENTIST", "DESI", "DIAMONDS", "DIET",
   "DIGITAL", "DIRECT", "DIRECTORY", "DISCOUNT", "DJ", "DK", "DM", "DNP", "DO", "DOMAINS", "DURBAN",
   "DVAG", "DZ", "EAT", "EC", "EDU", "EDUCATION", "EE", "EG", "EMAIL", "ENGINEER", "ENGINEERING",
   "ENTERPRISES", "EQUIPMENT", "ER", "ES", "ESQ", "ESTATE", "ET", "EU", "EUS", "EVENTS", "EXCHANGE",
   "EXPERT", "EXPOSED", "FAIL", "FARM", "FEEDBACK", "FI", "FINANCE", "FINANCIAL", "FISH", "FISHING",
   "FITNESS", "FJ", "FK", "FLIGHTS", "FLORIST", "FLY", "FM", "FO", "FOO", "FORSALE", "FOUNDATION",
   "FR", "FRL", "FROGANS", "FUND", "FURNITURE", "FUTBOL", "GA", "GAL", "GALLERY", "GB", "GBIZ",
   "GD", "GE", "GENT", "GF", "GG", "GH", "GI", "GIFT", "GIFTS", "GIVES", "GL", "GLASS", "GLE",
   "GLOBAL", "GLOBO", "GM", "GMAIL", "GMO", "GMX", "GN", "GOOGLE", "GOP", "GOV", "GP", "GQ", "GR",
   "GRAPHICS", "GRATIS", "GREEN", "GRIPE", "GS", "GT", "GU", "GUIDE", "GUITARS", "GURU", "GW", "GY",
   "HAMBURG", "HAUS", "HEALTHCARE", "HELP", "HERE", "HIPHOP", "HIV", "HK", "HM", "HN", "HOLDINGS",
   "HOLIDAY", "HOMES", "HORSE", "HOST", "HOSTING", "HOUSE", "HOW", "HR", "HT", "HU", "IBM", "ID",
   "IE", "IL", "IM", "IMMO", "IMMOBILIEN", "IN", "INDUSTRIES", "INFO", "ING", "INK", "INSTITUTE",
   "INSURE", "INT", "INTERNATIONAL", "INVESTMENTS", "IO", "IQ", "IR", "IS", "IT", "JE", "JETZT",
   "JM", "JO", "JOBS", "JOBURG", "JP", "JUEGOS", "KAUFEN", "KE", "KG", "KH", "KI", "KIM", "KITCHEN",
   "KIWI", "KM", "KN", "KOELN", "KP", "KR", "KRD", "KRED", "KW", "KY", "KZ", "LA", "LACAIXA",
   "LAND", "LAWYER", "LB", "LC", "LEASE", "LGBT", "LI", "LIFE", "LIGHTING", "LIMITED", "LIMO",
   "LINK", "LK", "LOANS", "LONDON", "LOTTO", "LR", "LS", "LT", "LTDA", "LU", "LUXE", "LUXURY", "LV",
   "LY", "MA", "MAISON", "MANAGEMENT", "MANGO", "MARKET", "MARKETING", "MC", "MD", "ME", "MEDIA",
   "MEET", "MELBOURNE", "MEME", "MENU", "MG", "MH", "MIAMI", "MIL", "MINI", "MK", "ML", "MM", "MN",
   "MO", "MOBI", "MODA", "MOE", "MONASH", "MORTGAGE", "MOSCOW", "MOTORCYCLES", "MOV", "MP", "MQ",
   "MR", "MS", "MT", "MU", "MUSEUM", "MV", "MW", "MX", "MY", "MZ", "NA", "NAGOYA", "NAME", "NAVY",
   "NC", "NE", "NET", "NETWORK", "NEUSTAR", "NEW", "NEXUS", "NF", "NG", "NGO", "NHK", "NI", "NINJA",
   "NL", "NO", "NP", "NR", "NRA", "NRW", "NU", "NYC", "NZ", "OKINAWA", "OM", "ONG", "ONL", "OOO",
   "ORG", "ORGANIC", "OTSUKA", "OVH", "PA", "PARIS", "PARTNERS", "PARTS", "PE", "PF", "PG", "PH",
   "PHARMACY", "PHOTO", "PHOTOGRAPHY", "PHOTOS", "PHYSIO", "PICS", "PICTURES", "PINK", "PIZZA",
   "PK", "PL", "PLACE", "PLUMBING", "PM", "PN", "POHL", "POST", "PR", "PRAXI", "PRESS", "PRO",
   "PROD", "PRODUCTIONS", "PROF", "PROPERTIES", "PROPERTY", "PS", "PT", "PUB", "PW", "PY", "QA",
   "QPON", "QUEBEC", "RE", "REALTOR", "RECIPES", "RED", "REHAB", "REISE", "REISEN", "REN",
   "RENTALS", "REPAIR", "REPORT", "REPUBLICAN", "REST", "RESTAURANT", "REVIEWS", "RICH", "RIO",
   "RO", "ROCKS", "RODEO", "RS", "RSVP", "RU", "RUHR", "RW", "RYUKYU", "SA", "SAARLAND", "SARL",
   "SB", "SC", "SCA", "SCB", "SCHMIDT", "SCHULE", "SCOT", "SD", "SE", "SERVICES", "SEXY", "SG",
   "SH", "SHIKSHA", "SHOES", "SI", "SINGLES", "SJ", "SK", "SL", "SM", "SN", "SO", "SOCIAL",
   "SOFTWARE", "SOHU", "SOLAR", "SOLUTIONS", "SOY", "SPACE", "SPIEGEL", "SR", "ST", "SU",
   "SUPPLIES", "SUPPLY", "SUPPORT", "SURF", "SURGERY", "SUZUKI", "SV", "SX", "SY", "SYSTEMS", "SZ",
   "TATAR", "TATTOO", "TAX", "TC", "TD", "TECHNOLOGY", "TEL", "TF", "TG", "TH", "TIENDA", "TIPS",
   "TIROL", "TJ", "TK", "TL", "TM", "TN", "TO", "TODAY", "TOKYO", "TOOLS", "TOP", "TOWN", "TOYS",
   "TP", "TR", "TRADE", "TRAINING", "TRAVEL", "TT", "TUI", "TV", "TW", "TZ", "UA", "UG", "UK",
   "UNIVERSITY", "UNO", "UOL", "US", "UY", "UZ", "VA", "VACATIONS", "VC", "VE", "VEGAS", "VENTURES",
   "VERSICHERUNG", "VET", "VG", "VI", "VIAJES", "VILLAS", "VISION", "VLAANDEREN", "VN", "VODKA",
   "VOTE", "VOTING", "VOTO", "VOYAGE", "VU", "WALES", "WANG", "WATCH", "WEBCAM", "WEBSITE", "WED",
   "WF", "WHOSWHO", "WIEN", "WIKI", "WILLIAMHILL", "WME", "WORK", "WORKS", "WORLD", "WS", "WTC",
   "WTF", "XN--1QQW23A", "XN--3BST00M", "XN--3DS443G", "XN--3E0B707E", "XN--45BRJ9C", "XN--4GBRIM",
   "XN--55QW42G", "XN--55QX5D", "XN--6FRZ82G", "XN--6QQ986B3XL", "XN--80ADXHKS", "XN--80AO21A",
   "XN--80ASEHDB", "XN--80ASWG", "XN--90A3AC", "XN--C1AVG", "XN--CG4BKI", "XN--CLCHC0EA0B2G2A9GCD",
   "XN--CZR694B", "XN--CZRU2D", "XN--D1ACJ3B", "XN--FIQ228C5HS", "XN--FIQ64B", "XN--FIQS8S",
   "XN--FIQZ9S", "XN--FPCRJ9C3D", "XN--FZC2C9E2C", "XN--GECRJ9C", "XN--H2BRJ9C", "XN--I1B6B1A6A2E",
   "XN--IO0A7I", "XN--J1AMH", "XN--J6W193G", "XN--KPRW13D", "XN--KPRY57D", "XN--KPUT3I",
   "XN--L1ACC", "XN--LGBBAT1AD8J", "XN--MGB9AWBF", "XN--MGBA3A4F16A", "XN--MGBAAM7A8H",
   "XN--MGBAB2BD", "XN--MGBAYH7GPA", "XN--MGBBH1A71E", "XN--MGBC0A9AZCG", "XN--MGBERP4A5D4AR",
   "XN--MGBX4CD0AB", "XN--NGBC5AZD", "XN--NQV7F", "XN--NQV7FS00EMA", "XN--O3CW4H", "XN--OGBPF8FL",
   "XN--P1ACF", "XN--P1AI", "XN--PGBS0DH", "XN--Q9JYB4C", "XN--RHQV96G", "XN--S9BRJ9C",
   "XN--SES554G", "XN--UNUP4Y", "XN--VERMGENSBERATER-CTB", "XN--VERMGENSBERATUNG-PWB", "XN--VHQUV",
   "XN--WGBH1C", "XN--WGBL6A", "XN--XHQ521B", "XN--XKC2AL3HYE2A", "XN--XKC2DL3A5EE0H",
   "XN--YFRO4I67O", "XN--YGBI2AMMX", "XN--ZFR164B", "XXX", "XYZ", "YACHTS", "YANDEX", "YE",
   "YOKOHAMA", "YOUTUBE", "YT", "ZA", "ZIP", "ZM", "ZONE", "ZW"]

def tlds : List (List UInt8) := tldNames.map asciiBytes

def extendedTlds : List (List UInt8) := ["BIT", "ONION"].map asciiBytes

/-! ## the check -/

def toUpper (c : UInt8) : UInt8 := if 97 ≤ c ∧ c ≤ 122 then c - 32 else c

def isdomainToUpper (src : List UInt8) : List UInt8 := src.map toUpper

/-- the string is read from as far before its end as the suffix is long -/
def isdomainHasSuffix (s suf : List UInt8) : Exec Bool := do
  require .outOfBounds (suf.length ≤ s.length)
  .ok (s.drop (s.length - suf.length) = suf)

def isdomainIsAtArray (a : List (List UInt8)) (s : List UInt8) : Bool :=
  a.contains (isdomainToUpper s)

def isCapital (c : UInt8) : Bool := 65 ≤ c ∧ c ≤ 90

/-- the last two characters are letters, and there are letters, digits, dots and hyphens -/
def isdomainMatchString (d : List UInt8) : Exec Bool := do
  let str := isdomainToUpper d
  require .outOfBounds (2 ≤ str.length)
  if str.head? = some 46 then .ok false
  else if (str.drop (str.length - 2)).all isCapital then
    .ok (str.all fun c => isCapital c ∨ (48 ≤ c ∧ c ≤ 57) ∨ c = 46 ∨ c = 45)
  else .ok false

def isdomainIsTld (s : List UInt8) : Bool :=
  isdomainIsAtArray tlds s || isdomainIsAtArray extendedTlds s

/-- the place of the last `c` -/
def strrchr (c : UInt8) (s : List UInt8) : Option Nat :=
  (s.reverse.idxOf? c).map fun i => s.length - 1 - i

/-- with no dot at the end -/
def isdomainCheck (s : List UInt8) : Exec Bool :=
  match strrchr 46 s with
  | none => .ok false
  | some i => if isdomainIsTld (s.drop (i + 1)) then isdomainMatchString s else .ok false

def isdomainIsDomain (s : List UInt8) : Exec Bool := do
  let dot ← isdomainHasSuffix s [46]
  isdomainCheck (if dot then s.dropLast else s)

section
variable {s : List UInt8}

theorem asciiBytes_eq_nil {text : String} (h : asciiBytes text = []) : text = "" :=
  String.toList_eq_nil_iff.1 (List.map_eq_nil_iff.1 h)

theorem nil_not_mem_tlds : [] ∉ tlds ++ extendedTlds := by
  have hnames : "" ∉ tldNames ++ ["BIT", "ONION"] := by decide +kernel
  unfold tlds extendedTlds
  rw [← List.map_append]
  intro h
  obtain ⟨text, hmem, htext⟩ := List.mem_map.1 h
  exact hnames (asciiBytes_eq_nil htext ▸ hmem)

theorem mem_of_isdomainIsAtArray {a : List (List UInt8)} (h : isdomainIsAtArray a s = true) :
    isdomainToUpper s ∈ a := List.contains_iff_mem.1 h

/-- a top level domain has a character at least -/
theorem ne_nil_of_isdomainIsTld (h : isdomainIsTld s = true) : s ≠ [] := by
  rintro rfl
  apply nil_not_mem_tlds
  rcases Bool.or_eq_true_iff.1 h with h | h
  · exact List.mem_append_left _ (mem_of_isdomainIsAtArray h)
  · exact List.mem_append_right _ (mem_of_isdomainIsAtArray h)

theorem safe_isdomainMatchString (h : 2 ≤ s.length) : Safe (isdomainMatchString s) := by
  have hlen : 2 ≤ (isdomainToUpper s).length := by
    rwa [isdomainToUpper, List.length_map]
  show Safe (require .outOfBounds (2 ≤ (isdomainToUpper s).length) >>= _)
  rw [require_pos hlen, ok_bind]
  split
  · exact safe_ok _
  split
  · exact safe_ok _
  · exact safe_ok _

theorem safe_isdomainCheck : Safe (isdomainCheck s) := by
  unfold isdomainCheck
  cases strrchr 46 s with
  | none => exact safe_ok _
  | some i =>
    show Safe (if isdomainIsTld (s.drop (i + 1)) then isdomainMatchString s else .ok false)
    split
    · next htld =>
      apply safe_isdomainMatchString
      have hlen := List.length_pos_of_ne_nil (ne_nil_of_isdomainIsTld htld)
      rw [List.length_drop] at hlen
      omega
    · exact safe_ok _

/-- **only the empty string** is read before its beginning -/
theorem safe_isdomainIsDomain : Safe (isdomainIsDomain s) ↔ s ≠ [] := by
  unfold isdomainIsDomain isdomainHasSuffix
  constructor
  · rintro h rfl
    exact not_safe_error _ h
  · intro h
    have hpos : [(46 : UInt8)].length ≤ s.length := List.length_pos_of_ne_nil h
    rw [require_pos hpos, ok_bind, ok_bind]
    exact safe_isdomainCheck

/-! ## the last dot -/

theorem idxOf?_append_cons {c : UInt8} {front : List UInt8} (h : c ∉ front) (back : List UInt8) :
    (front ++ c :: back).idxOf? c = some front.length := by
  induction front with
  | nil => rw [List.nil_append, List.idxOf?_cons, if_pos (beq_self_eq_true c)]; rfl
  | cons b front ih =>
    have hb : ¬ (b == c) = true := fun e => h (beq_iff_eq.1 e ▸ List.mem_cons_self)
    rw [List.cons_append, List.idxOf?_cons, if_neg hb, ih fun hm => h (List.mem_cons_of_mem b hm)]
    rfl

/-- the last one has none behind it -/
theorem strrchr_append {c : UInt8} {front back : List UInt8} (h : c ∉ back) :
    strrchr c (front ++ c :: back) = some front.length := by
  have hidx : (front ++ c :: back).reverse.idxOf? c = some back.length := by
    rw [List.reverse_append, List.reverse_cons, List.append_assoc, List.singleton_append,
      idxOf?_append_cons fun hm => h (List.mem_reverse.1 hm), List.length_reverse]
  unfold strrchr
  rw [hidx, Option.map_some, List.length_append, List.length_cons]
  exact congrArg some (by omega)

/-- a string has no dot, or a last one -/
theorem eq_append_dot (h : 46 ∈ s) : ∃ front label : List UInt8, s = front ++ 46 :: label ∧ 46 ∉ label := by
  obtain ⟨back, front, hs, hback⟩ := List.eq_append_cons_of_mem (List.mem_reverse.2 h)
  refine ⟨front.reverse, back.reverse, ?_, fun hm => hback (List.mem_reverse.1 hm)⟩
  rw [← List.reverse_reverse s, hs, List.reverse_append, List.reverse_cons, List.append_assoc,
    List.singleton_append]

theorem strrchr_eq_none (h : 46 ∉ s) : strrchr 46 s = none := by
  rw [strrchr, List.idxOf?_eq_none_iff.2 (fun hm => h (List.mem_reverse.1 hm)), Option.map_none]

/-! ## the grammar -/

def IsLetter (c : UInt8) : Prop := (65 ≤ c ∧ c ≤ 90) ∨ (97 ≤ c ∧ c ≤ 122)

instance (c : UInt8) : Decidable (IsLetter c) := inferInstanceAs (Decidable (_ ∨ _))

/-- what a domain is made of -/
def IsDomainCharacter (c : UInt8) : Prop := IsLetter c ∨ (48 ≤ c ∧ c ≤ 57) ∨ c = 46 ∨ c = 45

instance (c : UInt8) : Decidable (IsDomainCharacter c) := inferInstanceAs (Decidable (_ ∨ _))

structure IsDomainName (s : List UInt8) : Prop where
  noDotInFront : s.head? ≠ some 46
  characters : ∀ c ∈ s, IsDomainCharacter c
  lastTwo : ∃ front a b, s = front ++ [a, b] ∧ IsLetter a ∧ IsLetter b
  topLevel : ∃ front label, s = front ++ 46 :: label ∧ 46 ∉ label ∧
    isdomainToUpper label ∈ tlds ++ extendedTlds

def withoutLastDot (s : List UInt8) : List UInt8 := if s.getLast? = some 46 then s.dropLast else s

/-- the check ends inside the string, with what the grammar says -/
def DecidesDomain (s : List UInt8) : Prop :=
  ∃ r, isdomainIsDomain s = .ok r ∧ (r = true ↔ IsDomainName (withoutLastDot s))

theorem isCapital_toUpper (c : UInt8) : isCapital (toUpper c) = true ↔ IsLetter c := by
  revert c
  exact forall_byte (by decide +kernel)

theorem toUpper_characters (c : UInt8) : (isCapital (toUpper c) = true ∨
    (48 ≤ toUpper c ∧ toUpper c ≤ 57) ∨ toUpper c = 46 ∨ toUpper c = 45) ↔ IsDomainCharacter c := by
  revert c
  exact forall_byte (by decide +kernel)

theorem toUpper_eq_dot (c : UInt8) : toUpper c = 46 ↔ c = 46 := by
  revert c
  exact forall_byte (by decide +kernel)

theorem isdomainIsTld_iff : isdomainIsTld s = true ↔ isdomainToUpper s ∈ tlds ++ extendedTlds := by
  rw [isdomainIsTld, Bool.or_eq_true, isdomainIsAtArray, isdomainIsAtArray, List.contains_iff_mem,
    List.contains_iff_mem, List.mem_append]

/-- the characters are checked as they are in capitals -/
theorem isdomainMatchString_eq_ok {front : List UInt8} {a b : UInt8} :
    ∃ r, isdomainMatchString (front ++ [a, b]) = .ok r ∧ (r = true ↔
      (front ++ [a, b]).head? ≠ some 46 ∧ (∀ c ∈ front ++ [a, b], IsDomainCharacter c) ∧
        IsLetter a ∧ IsLetter b) := by
  have hupper : isdomainToUpper (front ++ [a, b]) = isdomainToUpper front ++ [toUpper a, toUpper b] :=
    List.map_append
  have hlen : (isdomainToUpper front ++ [toUpper a, toUpper b]).length = (isdomainToUpper front).length + 2 :=
    List.length_append
  have hhead : (isdomainToUpper front ++ [toUpper a, toUpper b]).head? = some 46 ↔
      (front ++ [a, b]).head? = some 46 := by
    rw [← hupper, isdomainToUpper, List.head?_map, Option.map_eq_some_iff]
    constructor
    · rintro ⟨c, hc, hdot⟩
      rw [hc, (toUpper_eq_dot c).1 hdot]
    · intro h
      exact ⟨46, h, rfl⟩
  have hlast : ((isdomainToUpper front ++ [toUpper a, toUpper b]).drop
      ((isdomainToUpper front ++ [toUpper a, toUpper b]).length - 2)).all isCapital = true ↔
        IsLetter a ∧ IsLetter b := by
    rw [hlen, Nat.add_sub_cancel, List.drop_left, List.all_cons, List.all_cons, List.all_nil, Bool.and_true,
      Bool.and_eq_true, isCapital_toUpper, isCapital_toUpper]
  have hall : ((isdomainToUpper front ++ [toUpper a, toUpper b]).all fun c =>
      isCapital c ∨ (48 ≤ c ∧ c ≤ 57) ∨ c = 46 ∨ c = 45) = true ↔
        ∀ c ∈ front ++ [a, b], IsDomainCharacter c := by
    rw [← hupper, isdomainToUpper, List.all_map, List.all_eq_true]
    exact forall₂_congr fun c _ => by
      rw [Function.comp_apply, decide_eq_true_iff, toUpper_characters]
  unfold isdomainMatchString
  dsimp only
  rw [hupper, require_pos (by rw [hlen]; omega), ok_bind]
  split
  · rename_i h
    exact ⟨false, rfl, iff_of_false Bool.false_ne_true fun hn => hn.1 (hhead.1 h)⟩
  · rename_i hnot
    split
    · rename_i h
      refine ⟨_, rfl, ?_⟩
      rw [hall]
      exact ⟨fun hc => ⟨fun hd => hnot (hhead.2 hd), hc, hlast.1 h⟩, fun hn => hn.2.1⟩
    · rename_i h
      exact ⟨false, rfl, iff_of_false Bool.false_ne_true fun hn => h (hlast.2 hn.2.2)⟩

/-- **the grammar is decided** of a string without a dot at its end -/
theorem isdomainCheck_eq_ok (s : List UInt8) :
    ∃ r, isdomainCheck s = .ok r ∧ (r = true ↔ IsDomainName s) := by
  by_cases hdot : 46 ∈ s
  · obtain ⟨front, label, rfl, hlabel⟩ := eq_append_dot hdot
    have hdrop : (front ++ 46 :: label).drop (front.length + 1) = label := by
      rw [List.append_cons]
      exact List.drop_left' (by rw [List.length_append, List.length_singleton])
    rw [isdomainCheck, strrchr_append hlabel]
    dsimp only
    rw [hdrop]
    by_cases htld : isdomainIsTld label = true
    · rw [if_pos htld]
      -- the last label is not empty, so that there are two characters
      obtain ⟨init, last, hsplit⟩ := List.eq_nil_or_concat label |>.resolve_left (ne_nil_of_isdomainIsTld htld)
      have hinit : front ++ 46 :: init ≠ [] := List.append_ne_nil_of_right_ne_nil _ (List.cons_ne_nil _ _)
      obtain ⟨most, a, hmost⟩ := (List.eq_nil_or_concat (front ++ 46 :: init)).resolve_left hinit
      rw [List.concat_eq_append] at hmost
      have hs : front ++ 46 :: label = most ++ [a, last] := by
        rw [hsplit, List.concat_eq_append, ← List.cons_append, ← List.append_assoc, hmost,
          List.append_assoc, List.singleton_append]
      rw [hs]
      obtain ⟨r, hr, hiff⟩ := @isdomainMatchString_eq_ok most a last
      refine ⟨r, hr, hiff.trans ⟨fun h => ⟨h.1, h.2.1, ⟨most, a, last, rfl, h.2.2⟩, front, label, hs.symm,
        hlabel, isdomainIsTld_iff.1 htld⟩, fun h => ⟨h.noDotInFront, h.characters, ?_⟩⟩⟩
      obtain ⟨front', a', b', heq, hletters⟩ := h.lastTwo
      obtain ⟨-, htwo⟩ := List.append_inj' heq rfl
      cases htwo
      exact hletters
    · rw [if_neg htld]
      refine ⟨false, rfl, iff_of_false Bool.false_ne_true fun h => htld ?_⟩
      obtain ⟨front', label', heq, hlabel', htop⟩ := h.topLevel
      have hplace : some front.length = some front'.length := by
        rw [← strrchr_append hlabel, heq, strrchr_append hlabel']
      have hsame := List.append_inj heq (Option.some.inj hplace)
      rw [isdomainIsTld_iff, (List.cons.inj hsame.2).2]
      exact htop
  · rw [isdomainCheck, strrchr_eq_none hdot]
    refine ⟨false, rfl, iff_of_false Bool.false_ne_true fun h => hdot ?_⟩
    obtain ⟨front, label, rfl, -⟩ := h.topLevel
    exact List.mem_append_right _ List.mem_cons_self

/-- a dot at the end is dropped -/
theorem isdomainIsDomain_of_ne (h : s ≠ []) : isdomainIsDomain s = isdomainCheck (withoutLastDot s) := by
  have hpos : [(46 : UInt8)].length ≤ s.length := List.length_pos_of_ne_nil h
  have hlast : s.drop (s.length - [(46 : UInt8)].length) = [46] ↔ s.getLast? = some 46 := by
    obtain ⟨init, last, rfl⟩ := (List.eq_nil_or_concat s).resolve_left h
    rw [List.concat_eq_append, List.length_append, List.length_singleton, List.length_singleton,
      Nat.add_sub_cancel, List.drop_left, List.getLast?_concat, List.singleton_inj, Option.some_inj]
  rw [isdomainIsDomain, isdomainHasSuffix, require_pos hpos, ok_bind, ok_bind, withoutLastDot]
  simp only [decide_eq_true_eq, hlast]

/-- **the grammar is decided** of every string but the empty one, which is read before its
beginning -/
theorem decidesDomain_iff (s : List UInt8) : DecidesDomain s ↔ s ≠ [] := by
  constructor
  · rintro ⟨r, hr, -⟩
    exact safe_isdomainIsDomain.1 ⟨r, hr⟩
  · intro h
    rw [DecidesDomain, isdomainIsDomain_of_ne h]
    exact isdomainCheck_eq_ok _

/-- the empty string -/
theorem not_decidesDomain : ¬ DecidesDomain [] := fun h => (decidesDomain_iff []).1 h rfl

end

end Ipfs
