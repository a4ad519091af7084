import RvToolkit.Text.Basic

namespace RvToolkit.Palette

def code (digits : String) : Text := Char.ofNat 27 :: '[' :: (digits.toList ++ ['m'])

def red : Text := code "31"
def orange : Text := code "33"
def gray : Text := code "37"
def cyan : Text := code "36"
def green : Text := code "32"
def magenta : Text := code "35"
def blue : Text := code "34"
def yellow : Text := code "93"
def pink : Text := code "95"
def bold : Text := code "1"
def plain : Text := code "0"
def underline : Text := code "4"

def debug : Text := magenta ++ bold
def error : Text := red ++ bold
def info : Text := green ++ bold
def warning : Text := yellow ++ bold
def memory : Text := cyan ++ bold
def parse : Text := cyan ++ bold
def machine : Text := blue ++ bold
def syscall : Text := yellow ++ bold
def status : Text := orange ++ bold

def paint (colour t : Text) : Text := colour ++ t ++ plain

def showcase : List Text :=
  [paint red "This is red text".toList,
    paint orange "This is orange text".toList,
    paint gray "This is gray text".toList,
    paint cyan "This is cyan text".toList,
    paint green "This is green text".toList,
    paint magenta "This is magenta text".toList,
    paint blue "This is blue text".toList,
    paint yellow "This is yellow text".toList,
    paint error "This is error text".toList,
    paint debug "This is debug text".toList,
    paint memory "This is memory management text".toList,
    paint parse "This is parsing text".toList,
    paint machine "This is CPU operation text".toList,
    paint syscall "This is system call text".toList,
    paint status "This is CSR activity text".toList,
    paint (underline ++ green) "This is underlined green text".toList]

end RvToolkit.Palette
