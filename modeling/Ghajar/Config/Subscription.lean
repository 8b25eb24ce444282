import Ghajar.Lib.Text

/-!
# A group of configurations

A fetched subscription, a group made by hand (its link is blank), or the group a
received share lives in (its link names the share).
-/

namespace Ghajar

structure Subscription where
  name : String
  url : String
  used : Int := 0
  total : Int := 0
  expire : Int := 0
  lastUpdated : Int := 0
  /-- The panel's name for the service it was delivered for. -/
  serviceUsername : String := ""
  id : String
  deriving Repr, DecidableEq

/-- `url.isBlank()`: a group made by hand. -/
def Subscription.isLocal (s : Subscription) : Bool := s.url.blank

namespace Gvpn

def urlPrefix : String := "gvpn:"

def urlFor (shareId : String) : String := urlPrefix ++ shareId

def isGvpnUrl (url : String) : Bool := urlPrefix.toList.isPrefixOf url.toList

theorem urlFor_inj {a b : String} (h : urlFor a = urlFor b) : a = b := by
  have hl := congrArg String.toList h
  simp only [urlFor, String.toList_append] at hl
  exact String.toList_inj.1 (List.append_cancel_left hl)

end Gvpn

end Ghajar
