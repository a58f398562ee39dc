import NeoDCT.Lib.Prog
import NeoDCT.Lib.AutoTable
import NeoDCT.Lib.History
import NeoDCT.Wrap
import NeoDCT.Apps.Contacts
import NeoDCT.Apps.Mail
import NeoDCT.Apps.MessageDetail
import NeoDCT.Calls
import NeoDCT.ContactCalls
import NeoDCT.Screen
import NeoDCT.Layout
import NeoDCT.Framework.Lists
import NeoDCT.Framework.Inputs
import NeoDCT.Framework.Editors
import NeoDCT.Framework.Dialog
import NeoDCT.Lib.JsLiteral
import NeoDCT.Apps.Composer
import NeoDCT.Browser.Popup
import NeoDCT.Spelling
import NeoDCT.SelectionWalk
import NeoDCT.Browser.Panels
import NeoDCT.Browser.Menu
import NeoDCT.Browser.Cursor
import NeoDCT.Apps.Snake
import NeoDCT.Apps.MusicPlayer
import NeoDCT.SpamFilter
import NeoDCT.Lib.Struct
import NeoDCT.Lib.Greedy
import NeoDCT.Boot
import NeoDCT.Decoders
import NeoDCT.WrapGreedy
import NeoDCT.WrapLines
import NeoDCT.Apps.MessageLines
import NeoDCT.Framework.DialogMargin
import NeoDCT.Framework.PagedLines
import NeoDCT.Lib.Bisect
import NeoDCT.Lib.PyNumbers
import NeoDCT.Apps.NowPlaying
import NeoDCT.FitText
import NeoDCT.Framework.HeldKeys
import NeoDCT.Apps.ContactSearch
import NeoDCT.Lib.Works
import NeoDCT.LayoutCalls
import NeoDCT.Browser.Fetches
import NeoDCT.Lib.Sources
import NeoDCT.Browser.Status
import NeoDCT.Browser.UrlBar
import NeoDCT.Lib.RegexShape
import NeoDCT.Lib.PyUnicode
import NeoDCT.Spam.Hits
import NeoDCT.Spam.Dataset
import NeoDCT.Spam.Alternatives
import NeoDCT.Spam.Evaluators
import NeoDCT.Framebuffer
import NeoDCT.Tools.SeedContacts
import NeoDCT.Tools.SeedInbox
import NeoDCT.Apps.Markers
import NeoDCT.Lib.Draws
import NeoDCT.Tools.SeedNumbers
import NeoDCT.Lib.Chunks
import NeoDCT.Lib.PyBytes
import NeoDCT.Icebox.Id3
import NeoDCT.Icebox.Id3Encoding
import NeoDCT.Icebox.Id3ReadBack
import NeoDCT.Icebox.Id3Tags
import NeoDCT.Lib.Csv
import NeoDCT.Lib.Random
import NeoDCT.Spam.TortureTest
import NeoDCT.Tools.MouseShim
import NeoDCT.Lib.Within
import NeoDCT.Life
import NeoDCT.Apps.Games
import NeoDCT.Lib.PyJson
import NeoDCT.Tools.LayoutComposer
import NeoDCT.Lib.StableSort
import NeoDCT.Icebox.Music
import NeoDCT.AppScan
import NeoDCT.Lib.Memo
import NeoDCT.Lib.PySplit
import NeoDCT.Images
import NeoDCT.Lib.CArray
import NeoDCT.Lib.LastWrite
import NeoDCT.Tools.NokiaStudio
import NeoDCT.Spam.RuleEditor
