import SegsLauncher.Lib.Markup
import SegsLauncher.MainWindow
/-!
# What the description of a server shows

`get_server_information` puts two strings of the community list between the tags of a `RichText`. The
strings come from a file on the network and are not escaped, so they are shown as they are only while
nothing in them is read as markup.

| here | there |
| --- | --- |
| `informationText`        | the text of the matching branch (`MainWindow.qml:1398-1401`) |
| `isSpace`                | `QChar::isSpace`, which ends an unquoted attribute value |
| `entity`                 | the names Qt knows between `&` and `;`: any table |
| `Markup.links`           | the targets `onLinkActivated` can hand to `Qt.openUrlExternally` |
| `ShownAsData`            | `textArea_server_info` (`:984`): the template's tags, and the record's strings as text and target |
-/
namespace SegsLauncher

open MainWindow Markup

def isSpace (c : Char) : Bool :=
  c.toNat ∈ [0x20, 0x85, 0xA0, 0x1680, 0x2028, 0x2029, 0x202F, 0x205F, 0x3000] ||
    (0x9 ≤ c.toNat && c.toNat ≤ 0xD) || (0x2000 ≤ c.toNat && c.toNat ≤ 0x200A)

def informationText (info : ServerInfo) : String :=
  "<b>" ++ info.serverDescription ++ "</b>" ++ "<br><b>Register an account at: </b>" ++ "<a href=" ++
    info.serverWebUrl ++ ">" ++ info.serverWebUrl ++ "</a>"

/-- The first record of the name is shown. -/
theorem findServerInformation_of_find {server : String} {info : ServerInfo} :
    ∀ {servers : List ServerInfo} {serverInfoText : String},
      servers.find? (fun info => server = info.serverName) = some info →
      findServerInformation server servers serverInfoText = informationText info
  | [], _, h => by simp at h
  | first :: servers, _, h => by
    rw [findServerInformation]
    by_cases hname : server = first.serverName
    · simp only [List.find?_cons, hname, decide_true, Option.some.injEq] at h
      rw [if_pos hname, h]
      rfl
    · simp only [List.find?_cons, hname, decide_false] at h
      rw [if_neg hname]
      exact findServerInformation_of_find h

/-- The tags are the template's, one link among them, and both strings come out as they went in. -/
structure ShownAsData (entity : List Char → Option Char) (info : ServerInfo) (text : String) : Prop where
  tagNames : (tags text.toList).map (tagName isSpace) = ["b", "/b", "br", "b", "/b", "a", "/a"].map String.toList
  texts : texts entity text.toList =
    ["", info.serverDescription, "", "", "Register an account at: ", "", info.serverWebUrl, ""].map String.toList
  links : links isSpace entity text.toList = [info.serverWebUrl.toList]

/-- Nothing in the two strings is read as markup. -/
structure NoMarkup (entity : List Char → Option Char) (info : ServerInfo) : Prop where
  description_tag : '<' ∉ info.serverDescription.toList
  description_escape : NoEscapes entity info.serverDescription.toList
  webUrl_tag : '<' ∉ info.serverWebUrl.toList ∧ '>' ∉ info.serverWebUrl.toList
  webUrl_bare : Bare isSpace info.serverWebUrl.toList
  webUrl_escape : NoEscapes entity info.serverWebUrl.toList

/-! ## The chunks of the text -/

/-- What follows the opening of the link. -/
def linkChars (url : List Char) : List Char := url ++ (">".toList ++ (url ++ "</a>".toList))

/-- What follows the description. -/
def closingChars (url : List Char) : List Char :=
  "</b>".toList ++ ("<br><b>Register an account at: </b>".toList ++ ("<a href=".toList ++ linkChars url))

theorem informationText_toList (info : ServerInfo) :
    (informationText info).toList =
      "<b>".toList ++ (info.serverDescription.toList ++ closingChars info.serverWebUrl.toList) := by
  unfold informationText closingChars linkChars
  simp only [String.toList_append, List.append_assoc]

theorem chunks_opening (cs : List Char) :
    chunks false ("<b>".toList ++ cs) = [] :: "b".toList :: chunks false cs := rfl

/-- The chunks after a description, which goes on into the first of them. -/
theorem chunks_closing (url : List Char) :
    chunks false (closingChars url) =
      [] :: "/b".toList :: [] :: "br".toList :: [] :: "b".toList :: "Register an account at: ".toList ::
        "/b".toList :: [] :: (chunks true (linkChars url)).modifyHead ("a href=".toList ++ ·) := by
  have hclose : chunks false "</b>".toList = [[], "/b".toList] ++ [[]] := by decide
  have hregister : chunks false "<br><b>Register an account at: </b>".toList =
      [[], "br".toList, [], "b".toList, "Register an account at: ".toList, "/b".toList] ++ [[]] := by decide
  have hlink : chunks false "<a href=".toList = [[]] ++ ["a href=".toList] := by decide
  let pieces := [[], "br".toList, [], "b".toList, "Register an account at: ".toList, "/b".toList]
  calc chunks false (closingChars url)
      = [[], "/b".toList] ++ chunks false
          ("<br><b>Register an account at: </b>".toList ++ ("<a href=".toList ++ linkChars url)) :=
        chunks_append_nil hclose _
    _ = [[], "/b".toList] ++ (pieces ++ chunks false ("<a href=".toList ++ linkChars url)) :=
        congrArg ([[], "/b".toList] ++ ·) (chunks_append_nil hregister _)
    _ = [[], "/b".toList] ++ (pieces ++ ([[]] ++ (chunks true (linkChars url)).modifyHead ("a href=".toList ++ ·))) :=
        congrArg (fun l => [[], "/b".toList] ++ (pieces ++ l)) (chunks_append hlink _)

theorem linkTarget_href (entity : List Char → Option Char) (url : List Char) :
    linkTarget isSpace entity ("a href=".toList ++ url) = some (decode entity (value isSpace url).1) := by
  have hname : tagName isSpace ("a href=".toList ++ url) = "a".toList := rfl
  rw [linkTarget, if_pos hname]
  rfl

/-- With no `<` in the description, everything up to the link's target is the template's. -/
theorem chunks_information {info : ServerInfo} (hd : '<' ∉ info.serverDescription.toList) :
    chunks false (informationText info).toList =
      [] :: "b".toList :: info.serverDescription.toList :: "/b".toList :: [] :: "br".toList :: [] :: "b".toList ::
        "Register an account at: ".toList :: "/b".toList :: [] ::
        (chunks true (linkChars info.serverWebUrl.toList)).modifyHead ("a href=".toList ++ ·) := by
  have hdescription := chunks_append_of_not_mem (show delimiter false ∉ info.serverDescription.toList from hd)
    (closingChars info.serverWebUrl.toList)
  rw [chunks_closing, List.modifyHead_cons, List.append_nil] at hdescription
  rw [informationText_toList, chunks_opening, hdescription]

/-- With no `>` in the URL, the link ends where the template ends it. -/
theorem chunks_link {url : List Char} (h : '>' ∉ url) :
    chunks true (linkChars url) = url :: chunks false (url ++ "</a>".toList) := by
  have hurl := chunks_append_of_not_mem (show delimiter true ∉ url from h) (">".toList ++ (url ++ "</a>".toList))
  have hend : chunks true (">".toList ++ (url ++ "</a>".toList)) = [] :: chunks false (url ++ "</a>".toList) := rfl
  rw [hend, List.modifyHead_cons, List.append_nil] at hurl
  exact hurl

theorem chunks_linkText {url : List Char} (h : '<' ∉ url) :
    chunks false (url ++ "</a>".toList) = [url, "/a".toList, []] := by
  have hurl := chunks_append_of_not_mem (show delimiter false ∉ url from h) "</a>".toList
  have hclose : chunks false "</a>".toList = [[], "/a".toList, []] := by decide
  rw [hclose, List.modifyHead_cons, List.append_nil] at hurl
  exact hurl

/-! ## What is read back -/

section
variable {entity : List Char → Option Char} {info : ServerInfo}

/-- The bold text ends at the description's first `<`. -/
theorem ShownAsData.description (h : ShownAsData entity info (informationText info)) :
    '<' ∉ info.serverDescription.toList ∧ NoEscapes entity info.serverDescription.toList := by
  obtain ⟨rest, hrest⟩ : ∃ rest, closingChars info.serverWebUrl.toList = delimiter false :: rest := ⟨_, rfl⟩
  obtain ⟨l, hl⟩ := chunks_cut false info.serverDescription.toList rest
  have hchunks : chunks false (informationText info).toList =
      [] :: "b".toList :: info.serverDescription.toList.takeWhile (· ≠ '<') :: l := by
    rw [informationText_toList, chunks_opening, hrest, hl]
    rfl
  have htexts := h.texts
  rw [Markup.texts, hchunks, evens_cons_cons, evens_cons] at htexts
  have hbold := (List.cons.inj (List.cons.inj htexts).2).1
  exact (decode_takeWhile_eq_iff entity).1 hbold

/-- The target ends at the URL's first `>`, or before. -/
theorem ShownAsData.target (h : ShownAsData entity info (informationText info)) :
    '>' ∉ info.serverWebUrl.toList ∧ Bare isSpace info.serverWebUrl.toList ∧
      NoEscapes entity info.serverWebUrl.toList := by
  obtain ⟨rest, hrest⟩ : ∃ rest, ">".toList ++ (info.serverWebUrl.toList ++ "</a>".toList) =
    delimiter true :: rest := ⟨_, rfl⟩
  obtain ⟨l, hl⟩ := chunks_cut true info.serverWebUrl.toList rest
  have hlink : chunks true (linkChars info.serverWebUrl.toList) =
      info.serverWebUrl.toList.takeWhile (· ≠ '>') :: l := by
    rw [linkChars, hrest, hl]
    rfl
  have htags : Markup.tags (informationText info).toList = ["b", "/b", "br", "b", "/b"].map String.toList ++
      ("a href=".toList ++ info.serverWebUrl.toList.takeWhile (· ≠ '>')) :: odds l := by
    rw [Markup.tags, chunks_information h.description.1, hlink, List.modifyHead_cons]
    simp only [odds_cons_cons]
    rfl
  have htemplate : (["b", "/b", "br", "b", "/b"].map String.toList).filterMap (linkTarget isSpace entity) = [] := rfl
  have hlinks := h.links
  rw [Markup.links, htags, List.filterMap_append, htemplate, List.nil_append,
    List.filterMap_cons_some (linkTarget_href entity _)] at hlinks
  exact (decode_value_takeWhile_eq_iff isSpace entity).1 (List.cons.inj hlinks).1

/-- The visible link text ends at the URL's first `<`. -/
theorem ShownAsData.linkText (h : ShownAsData entity info (informationText info)) :
    '<' ∉ info.serverWebUrl.toList := by
  obtain ⟨rest, hrest⟩ : ∃ rest, "</a>".toList = delimiter false :: rest := ⟨_, rfl⟩
  obtain ⟨l, hl⟩ := chunks_cut false info.serverWebUrl.toList rest
  have hchunks := chunks_information h.description.1
  rw [chunks_link h.target.1, hrest, hl, List.modifyHead_cons] at hchunks
  have htexts := h.texts
  rw [Markup.texts, hchunks] at htexts
  simp only [evens_cons, odds_cons_cons] at htexts
  have hvisible : some (decode entity (info.serverWebUrl.toList.takeWhile (· ≠ '<'))) =
      some info.serverWebUrl.toList := congrArg (fun l => l[6]?) htexts
  exact ((decode_takeWhile_eq_iff entity).1 (Option.some.inj hvisible)).1

theorem NoMarkup.shownAsData (h : NoMarkup entity info) : ShownAsData entity info (informationText info) := by
  have hchunks := chunks_information h.description_tag
  rw [chunks_link h.webUrl_tag.2, chunks_linkText h.webUrl_tag.1, List.modifyHead_cons] at hchunks
  have hdescription := (decode_eq_self_iff entity).2 h.description_escape
  have hurl := (decode_eq_self_iff entity).2 h.webUrl_escape
  have htarget := (decode_value_eq_iff isSpace entity).2 ⟨h.webUrl_bare, h.webUrl_escape⟩
  constructor
  · rw [Markup.tags, hchunks]
    rfl
  · rw [Markup.texts, hchunks]
    simp only [evens_cons, odds_cons_cons, List.map_cons, hdescription, hurl]
    rfl
  · have hlink := linkTarget_href entity info.serverWebUrl.toList
    rw [htarget] at hlink
    have htags : Markup.tags (informationText info).toList = ["b", "/b", "br", "b", "/b"].map String.toList ++
        ["a href=".toList ++ info.serverWebUrl.toList, "/a".toList] := by
      rw [Markup.tags, hchunks]
      rfl
    have htemplate :
        (["b", "/b", "br", "b", "/b"].map String.toList).filterMap (linkTarget isSpace entity) = [] := rfl
    rw [Markup.links, htags, List.filterMap_append, htemplate, List.nil_append, List.filterMap_cons_some hlink]
    rfl

theorem shownAsData_iff : ShownAsData entity info (informationText info) ↔ NoMarkup entity info := by
  constructor
  · intro h
    obtain ⟨htag, hescape⟩ := h.description
    obtain ⟨hend, hbare, hurl⟩ := h.target
    exact ⟨htag, hescape, ⟨h.linkText, hend⟩, hbare, hurl⟩
  · exact NoMarkup.shownAsData

end

/-- **The information text shows a record's strings as data** exactly when neither holds markup, for every
    table of entities, name and store. -/
theorem information_shown_iff (entity : List Char → Option Char) (server : String) (app : App) (info : ServerInfo)
    (hfind : (Launcher.getServerInformation app.stores.settings).find? (fun i => server = i.serverName) = some info) :
    ShownAsData entity info (MainWindow.getServerInformation server app).serverInfoText ↔ NoMarkup entity info := by
  have htext : (MainWindow.getServerInformation server app).serverInfoText = informationText info :=
    findServerInformation_of_find hfind
  rw [htext]
  exact shownAsData_iff

/-- The escapes every HTML reader knows. -/
def standardEntity (name : List Char) : Option Char :=
  [("lt", '<'), ("gt", '>'), ("amp", '&'), ("quot", Char.ofNat 0x22), ("apos", Char.ofNat 0x27)].lookup
    (String.ofList name)

/-- A community list of one server. -/
def oneServer (description webUrl : String) : Document :=
  some (.object [("Servers", .array [.object [("ServerDetails", .object
    [("Name", .string "Outpost"), ("IP", .string "10.0.0.1"), ("Description", .string description),
     ("WebURL", .string webUrl)])]])])

/-- A window after this list has been saved. -/
def informed (description webUrl : String) : App :=
  { stores := ⟨Launcher.saveServersReply (oneServer description webUrl) ∅, ∅⟩ }

theorem information_shown_plain :
    ShownAsData standardEntity ⟨"Outpost", "Est. 2004 & open", "https://o.example/join"⟩
      (MainWindow.getServerInformation "Outpost"
        (informed "Est. 2004 & open" "https://o.example/join")).serverInfoText := by
  refine (information_shown_iff standardEntity "Outpost" _ _ (by decide +kernel)).2 ?_
  have hspace : ("https://o.example/join".toList.all fun c => !isSpace c) = true := by decide
  have hbare : Bare isSpace "https://o.example/join".toList := by
    refine ⟨fun c hc => by simpa using List.all_eq_true.1 hspace c hc, ?_⟩
    rintro c ⟨⟩
    decide
  exact ⟨by decide, by decide, by decide, hbare, by decide⟩

/-- A description can hold a link of its own, which opens where it says. -/
theorem not_information_shown_link :
    ¬ ShownAsData standardEntity ⟨"Outpost", "<a href=//evil.example>Join</a>", "https://o.example/join"⟩
      (MainWindow.getServerInformation "Outpost"
        (informed "<a href=//evil.example>Join</a>" "https://o.example/join")).serverInfoText := by
  have htext : (MainWindow.getServerInformation "Outpost"
      (informed "<a href=//evil.example>Join</a>" "https://o.example/join")).serverInfoText =
        informationText ⟨"Outpost", "<a href=//evil.example>Join</a>", "https://o.example/join"⟩ :=
    findServerInformation_of_find (by decide +kernel)
  rw [htext]
  intro h
  exact absurd h.description.1 (by decide)

end SegsLauncher
